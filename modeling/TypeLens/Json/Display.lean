import TypeLens.Decimal.Text
import TypeLens.Json.Basic
import TypeLens.Text.Quoted

/-!
# Showing structured data

Structured data inside a sentence is shown in a form of its own: a text stands as it is, and inside
an array or object it stands in quotes. `shown` and `shownInside` are the two forms.
-/

namespace TypeLens.Json

mutual

/-- A value as it is shown inside another one. -/
def shownInside : Json → String
  | null => "None"
  | bool true => "True"
  | bool false => "False"
  | int n => toString n
  | float x => Decimal.report.writeFloat x
  | str s => Text.quoted s
  | arr items => "[" ++ ", ".intercalate (shownItems items) ++ "]"
  | obj fields => "\x7b" ++ ", ".intercalate (shownFields fields) ++ "\x7d"

/-- The items of an array as they are shown. -/
def shownItems : List Json → List String
  | [] => []
  | item :: items => item.shownInside :: shownItems items

/-- The members of an object as they are shown. -/
def shownFields : List (String × Json) → List String
  | [] => []
  | (key, value) :: fields =>
    (Text.quoted key ++ ": " ++ value.shownInside) :: shownFields fields

end

/-- A value as it is shown in a sentence. -/
def shown : Json → String
  | str s => s
  | v => v.shownInside

end TypeLens.Json
