import TypeLens.Channel
import TypeLens.Server
import TypeLens.Text.Lines
import TypeLens.Tool.Input

/-!
# The look-up tool

The tool shows the type at a position of a file. It fails at the first of these stages that cannot
be passed, and each stage has a code of its own:

* there is a snapshot for the file, and its session can be built;
* the snapshot has the file among its documents;
* the position lies inside the document;
* there is a type at the position.

The look-up itself goes through the completion channel. What comes back is read again, because the
other end of the channel may be somebody else's. The tool gives no reply at all when what was looked
up cannot be written.
-/

namespace TypeLens.Tool

open TypeLens.Graph

/-- Why a tool gives no reply. -/
inductive Error where
  /-- The session failed in a way no reply is made for. -/
  | session (reason : Session.Error)
  /-- What was looked up cannot be written. -/
  | unwritten
  /-- The position has too many digits to be shown. -/
  | position
  /-- The reply cannot be made. -/
  | reply (reason : Reply.Error)
deriving Repr

/-- The category of the tool's failures. -/
def lookupCategory : String := "prettify_type_info"

/-- The other end of the channel. -/
structure Service where
  /-- What is looked up. -/
  Info : Type
  /-- Writes what was looked up. -/
  write? : Info → Option Json
  /-- Looks up in an oracle, for a document and a position in it. -/
  find : Oracle → (document : String) → (offset : Nat) → Channel.Provider Info

/-- The service that looks up types in the oracle. -/
def Service.standard (c : Codec) : Service where
  Info := TypeInfo
  write? := c.writeInfo?
  find o document offset options := Lookup.inFile o options document offset

/-! ### Documents -/

/-- How a reply names a document. -/
structure Identity where
  /-- The URI of the document. -/
  uri : String
  /-- The path of the document from the directory of the snapshot. -/
  relative : String
deriving Repr, DecidableEq

/-- How a reply names a document of a session. -/
def identify (fs : FileSystem) (session : Session) (document : String) : Identity :=
  let root := Path.parent session.key
  let path := fs.absolute (Path.join root document)
  ⟨Uri.ofPath path, (Project.relative? fs root path).getD document⟩

/-- The documents of a snapshot in the order of their keys. -/
def documents (snapshot : Snapshot) : List String :=
  (snapshot.documents.map Prod.fst).mergeSort fun a b ↦ !(b < a)

/-! ### Failures -/

/-- A failure of the tool. -/
def lookupProblem (code : Reply.Code) (message : String) (details : Fields) : Reply.Problem where
  message := message
  code := some code
  category := some lookupCategory
  details := details

/-- The details that repeat what was asked for. -/
def askedFor (input : LookupInput) : Fields :=
  [("file_path", .str input.location.file)] ++
    match input.config with
    | none | some "" => []
    | some path => [("config_path", .str path)]

/-- The failure for a session that is missing, if there is a reply for it. -/
def sessionProblem? (input : LookupInput) (e : Session.Error) : Option Reply.Problem :=
  match e with
  | .missing _ => some (lookupProblem .configNotFound e.message (askedFor input))
  | .build key _ =>
    some (lookupProblem .sessionFailure e.message
      ((askedFor input).put "config_path" (.str key)))
  | _ => none

/-- The failure for a file the snapshot does not cover. -/
def documentProblem (input : LookupInput) (session : Session) : Reply.Problem :=
  lookupProblem .invalidPath "File is not part of the type graph snapshot."
    (((askedFor input).put "config_path" (.str session.key)).put "documents"
      (.strings (documents session.oracle.snapshot)))

/-- A position as text. -/
def positionText (l : Location) : String :=
  toString l.line ++ ":" ++ toString l.column

/-- Whether a position can be shown as text. -/
def Location.isShowable (l : Location) : Bool :=
  Text.isShowable l.line && Text.isShowable l.column

/-- The details that name a position of a document. -/
def positionDetails (i : Identity) (l : Location) : Fields :=
  [("file", .str i.relative), ("line", .int l.line), ("column", .int l.column)]

/-- The failure for a position outside the document. -/
def positionProblem (i : Identity) (l : Location) : Reply.Problem :=
  lookupProblem .badRequest ("Position " ++ positionText l ++ " is outside the document.")
    (positionDetails i l)

/-- The failure for a position without a type. -/
def noTypeProblem (i : Identity) (l : Location) (text : String) : Reply.Problem :=
  lookupProblem .noType ("No type information at " ++ positionText l ++ ".")
    (positionDetails i l ++
      [("context", .str (Text.lineWithMark text l.line (some l.column) Text.cursorMark))])

/-- The failure of a look-up that was cancelled. -/
def cancelledProblem : Reply.Problem :=
  lookupProblem .cancelled cancelledMessage []

/-- The failure of a look-up whose answer cannot be read. -/
def malformedProblem : Reply.Problem :=
  lookupProblem .unknown "The type lookup returned a malformed result." []

/-! ### Findings -/

/-- What a look-up found. -/
structure Finding where
  /-- The document. -/
  identity : Identity
  /-- The position. -/
  location : Location
  /-- The number of characters before the position. -/
  offset : Nat
  /-- The type at the position. -/
  info : TypeInfo
  /-- The tree of the type as an object. -/
  written : Json
  /-- The declaration with its type laid out. -/
  rendered : String
  /-- Whether the display parts are shown. -/
  withParts : Bool

/-- A finding as structured data. -/
def Finding.structured (f : Finding) : Fields :=
  [("file", .obj [("uri", .str f.identity.uri), ("relative_path", .str f.identity.relative)]),
    ("pos", .obj [("l", .int f.location.line), ("c", .int f.location.column)]),
    ("offset", .int f.offset), ("name", .str f.info.name),
    ("syntaxKind", .ofString? f.info.kind), ("declaration", .str f.info.declaration),
    ("rendered", .str f.rendered), ("typeTree", f.written)] ++
    if f.withParts then [("displayParts", .arr (f.info.tree.displayParts.map Part.toJson))] else []

/-- The headline of a finding. -/
def Finding.headline (f : Finding) : String :=
  "Type of `" ++ f.info.name ++ "` at " ++ positionText f.location ++ "."

/-! ### The tool -/

/-- The options of a look-up in a session: the session's names are skipped too, and all bounds are
lifted on request. -/
def effectiveOptions (input : LookupInput) (session : Session) : Options :=
  let options := { input.options with
    skippedNames := Text.distinct (session.skipped ++ input.options.skippedNames) }
  if input.full then options.full else options

/-- What a look-up in a session comes to. -/
inductive Outcome where
  /-- There is no type to show. -/
  | problem (p : Reply.Problem)
  /-- What was looked up cannot be written. -/
  | unwritten
  /-- There is a type. -/
  | finding (f : Finding)

/-- How the channel fails. -/
inductive Failure where
  /-- The look-up was cancelled. -/
  | cancelled
  /-- What was looked up cannot be written. -/
  | unwritten
  /-- What was received cannot be read. -/
  | malformed
deriving Repr, DecidableEq

/-- What a look-up comes to when the channel fails. -/
def Failure.outcome : Failure → Outcome
  | cancelled => .problem cancelledProblem
  | unwritten => .unwritten
  | malformed => .problem malformedProblem

/-- The type in the answer to a query. -/
def take (c : Codec) : Option Fields → Except Failure (Option TypeInfo)
  | none => .error .unwritten
  | some answer =>
    match Channel.received c.readInfo answer with
    | .ok info => .ok info
    | .error _ => .error .malformed

/-- Asks the other end of the channel for the type at an offset. Answers the type, if there is one,
or how the channel failed, and the number of cancellation checks. -/
def ask (c : Codec) (service : Service) (session : Session) (options : Options) (document : String)
    (offset : Nat) : Except Failure (Option TypeInfo) × Nat :=
  let provider := service.find session.oracle document offset
  let (result, polls) :=
    (Channel.completions service.write? provider (Channel.query options)).run.run 0
  match result with
  | .error _ => (.error .cancelled, polls)
  | .ok answer => (take c answer, polls)

/-- Looks up a type in a session. -/
def lookupIn (c : Codec) (fs : FileSystem) (service : Service) (input : LookupInput)
    (session : Session) : Outcome × Nat :=
  match session.oracle.findDocument input.location.file with
  | none => (.problem (documentProblem input session), 0)
  | some document =>
    let identity := identify fs session document
    let text := ((session.oracle.snapshot.document? document).map Document.text).getD ""
    let location := input.location
    match Text.offset? text location.line location.column with
    | none => (.problem (positionProblem identity location), 0)
    | some offset =>
      let options := effectiveOptions input session
      match ask c service session options document offset with
      | (.error failure, polls) => (failure.outcome, polls)
      | (.ok none, polls) => (.problem (noTypeProblem identity location text), polls)
      | (.ok (some info), polls) =>
        match c.write? 0 info.tree with
        | none => (.unwritten, polls)
        | some written =>
          (.finding ⟨identity, location, offset, info, written, info.rendered input.indentation,
            options.displayParts⟩, polls)

/-- Whether the reply to a look-up shows the position that was asked for. -/
def showsPosition : Outcome → Bool
  | .problem p => p.code = some .badRequest || p.code = some .noType
  | .unwritten => false
  | .finding _ => true

/-- The reply to a look-up. -/
def lookupReply (setting : Reply.Setting) : Outcome → Except Error Reply
  | .problem p => (Reply.failure setting p).mapError .reply
  | .unwritten => .error .unwritten
  | .finding f =>
    (Reply.success setting f.headline (some f.structured)
      [Reply.textBlock (Reply.codeBlock f.rendered "ts")]).mapError .reply

variable {τ : Type} [Sub τ] [LE τ] [DecidableLE τ]

/-- Shows the type at a position of a file. -/
def lookup (c : Codec) (h : Host τ) (service : Service) (s : Server τ) (input : LookupInput) :
    Except Error Reply × Server τ :=
  let setting := s.setting h.token input.location.format
  match s.sessionFor h input.location.file input.config with
  | (.error e, s) =>
    match sessionProblem? input e with
    | some problem => (lookupReply setting (.problem problem), s)
    | none => (.error (.session e), s)
  | (.ok session, s) =>
    let (outcome, polls) := lookupIn c h.files service input session
    let reply :=
      if showsPosition outcome && !input.location.isShowable then .error .position
      else lookupReply setting outcome
    (reply, { s with sessions := s.sessions.polled session.key polls })

end TypeLens.Tool
