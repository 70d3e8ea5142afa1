import TypeLens.Text.Scan
import TypeLens.Text.Word
import TypeLens.Tree.Basic
import TypeLens.Tree.Key

/-!
# Terminal parts

A type that is shown by its name alone is one display part. Its class follows from the name: a
keyword, a string literal in quotes of any kind, a numeric literal, or plain text.
-/

namespace TypeLens

namespace Part

/-- The name of an enum member. -/
def enumMember (s : String) : Part := ⟨s, "enumMemberName"⟩

/-- The name of an enum. -/
def enumName (s : String) : Part := ⟨s, "enumName"⟩

/-- A keyword. -/
def keyword (s : String) : Part := ⟨s, "keyword"⟩

/-- A numeric literal. -/
def numericLiteral (s : String) : Part := ⟨s, "numericLiteral"⟩

/-- An operator between types. -/
def operator (s : String) : Part := ⟨s, "operator"⟩

/-- The name of a parameter. -/
def parameterName (s : String) : Part := ⟨s, "parameterName"⟩

/-- The key of a property. -/
def propertyName (s : String) : Part := ⟨s, "propertyName"⟩

/-- Punctuation. -/
def punctuation (s : String) : Part := ⟨s, "punctuation"⟩

/-- A string literal. -/
def stringLiteral (s : String) : Part := ⟨s, "stringLiteral"⟩

/-- Plain text. -/
def plain (s : String) : Part := ⟨s, "text"⟩

/-- One space. -/
def space : Part := ⟨" ", "space"⟩

/-- The text of several parts. -/
def textOf (parts : List Part) : String :=
  String.join (parts.map Part.text)

end Part

/-- The words that are shown as keywords. -/
def keywords : List String :=
  ["abstract", "any", "as", "async", "await", "bigint", "boolean", "break", "case", "catch",
    "class", "const", "continue", "declare", "default", "do", "else", "enum", "export", "extends",
    "false", "finally", "for", "function", "if", "implements", "import", "in", "infer", "interface",
    "is", "keyof", "let", "module", "namespace", "never", "new", "null", "number", "object", "out",
    "private", "protected", "public", "readonly", "return", "static", "string", "super", "switch",
    "symbol", "this", "throw", "true", "try", "type", "typeof", "undefined", "unique", "unknown",
    "var", "void", "while", "yield"]

/-- Whether a name is a keyword. -/
def isKeyword (name : String) : Bool :=
  name ∈ keywords

namespace Literal

/-- Whether a name has the same quote at both ends. -/
def isQuoted (cs : List Char) : Bool :=
  match cs.head? with
  | some q => 2 ≤ cs.length && cs.getLast? == some q && (q == '"' || q == '\'' || q == '\x60')
  | none => false

/-- Drops a nonempty run of decimal digits. -/
def dropDigits? (cs : List Char) : Option (List Char) :=
  if (cs.takeWhile Text.isDigit).isEmpty then none else some (cs.dropWhile Text.isDigit)

/-- Drops a decimal point with the digits behind it, if there is a point. -/
def dropFraction? : List Char → Option (List Char)
  | '.' :: cs => dropDigits? cs
  | cs => some cs

/-- Drops an exponent, if there is one. -/
def dropExponent? : List Char → Option (List Char)
  | c :: cs =>
    if c = 'e' ∨ c = 'E' then
      match cs with
      | '+' :: cs | '-' :: cs => dropDigits? cs
      | cs => dropDigits? cs
    else some (c :: cs)
  | [] => some []

/-- Whether a text is a decimal numeral. -/
def isDecimal (cs : List Char) : Bool :=
  ((dropDigits? cs).bind fun cs ↦ (dropFraction? cs).bind dropExponent?) == some []

/-- The hexadecimal digits. -/
def isHexDigit (c : Char) : Bool :=
  Text.isLatinDigit c || ('a' ≤ c && c ≤ 'f') || ('A' ≤ c && c ≤ 'F')

/-- Whether a text is a hexadecimal numeral. -/
def isHexadecimal : List Char → Bool
  | '0' :: x :: cs => (x == 'x' || x == 'X') && !cs.isEmpty && cs.all isHexDigit
  | _ => false

/-- The numeral without the mark of a big integer. -/
def withoutMark (cs : List Char) : List Char :=
  match cs.getLast? with
  | some c => if c = 'n' ∨ c = 'N' then cs.dropLast else cs
  | none => cs

/-- The numeral without its sign. -/
def withoutSign : List Char → List Char
  | '-' :: cs => cs
  | cs => cs

/-- Whether a name is a numeric literal, up to one line feed at its end. -/
def isNumeric (cs : List Char) : Bool :=
  let body := withoutMark (withoutSign (Key.withoutFinalNewline cs))
  isDecimal body || isHexadecimal body

end Literal

/-- The display part of a type that is shown by its name. -/
def terminalPart (name : String) : Part :=
  if isKeyword name then .keyword name
  else if Literal.isQuoted name.toList then .stringLiteral name
  else if Literal.isNumeric name.toList then .numericLiteral name
  else .plain name

/-- Puts a separator between groups of parts. -/
def interleave (separator : List Part) : List (List Part) → List Part
  | [] => []
  | [group] => group
  | group :: groups => group ++ separator ++ interleave separator groups

/-- A comma and a space. -/
def commaParts : List Part :=
  [.punctuation ",", .space]

/-- The parts of a named type with its arguments in angle brackets, if it has any. -/
def referenceParts (name : String) (arguments : List (List Part)) : List Part :=
  (if isKeyword name then .keyword name else .plain name) ::
    if arguments.isEmpty then []
    else .punctuation "<" :: interleave commaParts arguments ++ [.punctuation ">"]

/-- A terminal part shows the name it is made of. -/
@[simp]
theorem text_terminalPart (name : String) : (terminalPart name).text = name := by
  unfold terminalPart
  split
  · rfl
  · split
    · rfl
    · split <;> rfl

end TypeLens
