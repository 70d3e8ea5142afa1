import TypeLens.Proofs.Channel.Lossless
import TypeLens.Proofs.Reply.Assembly
import TypeLens.Proofs.Server.Reachable
import TypeLens.Proofs.Tool.Written

/-!
# What a look-up comes to

A look-up passes through stages, and comes to the first stage that it cannot pass or to a type
(`verdict`). The reply tells which: **each stage has a code of its own, and a type that is found is
shown as it is** (`lookup_tells_verdict`). Two codes never occur. Nothing cancels a look-up in a
session that was loaded, and no answer is lost on the channel.

There is a reply to every request but three kinds (`lookup_replies_iff`). A type tree that is too
high cannot be written at all. A position with too many digits cannot be shown, and data with an
integer that is too large, or nested too deeply, cannot be written as text. The last two concern the
position that was asked for, which may be any integer.

The codec of the tool is any one that keeps to `Codec.Laws`.
-/

namespace TypeLens

open TypeLens.Graph TypeLens.Path

/-- The code of a reply. -/
def Reply.code? (r : Reply) : Option String :=
  (r.structured.bind fun data ↦ Fields.get? data "code").bind Json.str?

theorem Reply.Carries.code?_eq {isError : Bool} {fields : Fields} {reply : Reply}
    (h : Carries isError fields reply) :
    reply.code? = (fields.get? "code").bind Json.str? := by
  obtain ⟨data, hdata, hget⟩ := h.data_eq
  rw [Reply.code?, hdata, Option.bind_some, hget _ (by decide)]

namespace Tool

/-! ### Verdicts -/

/-- The stages that a look-up may not pass. -/
inductive Stage where
  /-- A snapshot is resolved for the file. -/
  | snapshot
  /-- There is a session for the snapshot. -/
  | session
  /-- The file is a document of the snapshot. -/
  | document
  /-- The position lies in the document. -/
  | position
  /-- The look-up is not cancelled. -/
  | cancellation
  /-- There is a type. -/
  | type
deriving DecidableEq

/-- The code for a stage that was not passed. -/
def Stage.code : Stage → Reply.Code
  | snapshot => .configNotFound
  | session => .sessionFailure
  | document => .invalidPath
  | position => .badRequest
  | cancellation => .cancelled
  | type => .noType

/-- The first stage that a look-up cannot pass, or else the offset of the position and the type
there. -/
abbrev Verdict := Except Stage (Nat × TypeInfo)

/-- What a look-up in a session comes to. -/
def verdictIn (session : Session) (input : LookupInput) : Verdict :=
  match session.oracle.findDocument input.location.file with
  | none => .error .document
  | some document =>
    let text := ((session.oracle.snapshot.document? document).map Document.text).getD ""
    match Text.offset? text input.location.line input.location.column with
    | none => .error .position
    | some offset =>
      let options := effectiveOptions input session
      match ((Lookup.inFile session.oracle options document offset).run.run 0).1 with
      | .error _ => .error .cancellation
      | .ok none => .error .type
      | .ok (some info) => .ok (offset, info)

/-- What a look-up comes to. -/
def verdict {τ : Type} [Sub τ] [LE τ] [DecidableLE τ] (h : Host τ) (s : Server τ)
    (input : LookupInput) : Verdict :=
  let (resolved, s) := s.resolve h.files input.location.file input.config
  match resolved with
  | .error _ => .error .snapshot
  | .ok path =>
    match (s.session h path).1 with
    | .error _ => .error .session
    | .ok session => verdictIn session input

/-- A reply tells a verdict. -/
def Tells (indentation : Int) (reply : Reply) : Verdict → Prop
  | .error stage => reply.isError = true ∧ reply.code? = some stage.code.word
  | .ok (_, info) => reply.isError = false ∧ reply.code? = none ∧
      ∃ data, reply.structured = some data ∧
        Fields.get? data "name" = some (.str info.name) ∧
        Fields.get? data "declaration" = some (.str info.declaration) ∧
        Fields.get? data "typeTree" = some info.tree.toJson ∧
        Fields.get? data "rendered" = some (.str (info.rendered indentation))

/-- Whether the reply for a verdict shows the position. -/
def Verdict.showsPosition : Verdict → Bool
  | .error .position | .error .type | .ok _ => true
  | .error _ => false

/-- Whether the tree of a verdict is not too high for the levels that can be written. -/
def Verdict.fits (levels : Nat) : Verdict → Bool
  | .error _ => true
  | .ok (_, info) => info.tree.height ≤ levels

/-- Whether the data for a verdict can be written as text. -/
def Verdict.isWritable (l : Location) : Verdict → Bool
  | .error .position | .error .type => Json.isNarrow l.line && Json.isNarrow l.column
  | .error _ => true
  | .ok (offset, info) => Json.isNarrow l.line && Json.isNarrow l.column && Json.isNarrow offset &&
      info.tree.toJson.hasNarrowIntegers && info.tree.toJson.depth < Json.maxWrittenDepth

/-! ### Outcomes -/

variable {c : Codec} {input : LookupInput} {v : Verdict} {outcome : Outcome}

/-- What the tool reports is what the look-up comes to, if that can be written. -/
inductive Reports (input : LookupInput) : Verdict → Outcome → Prop
  /-- The problem has the code of the stage, and no more details than can be written. -/
  | problem {stage : Stage} {p : Reply.Problem} (hcode : p.code = some stage.code)
    (hdetails : (∀ e ∈ p.details, e.2.FitsBelow 2) ↔
      Verdict.isWritable input.location (.error stage) = true) :
    Reports input (.error stage) (.problem p)
  /-- The type is found at the position that was asked for, written as it is and laid out as it was
  asked for. -/
  | finding {f : Finding} (hlocation : f.location = input.location)
    (hwritten : f.written = f.info.tree.toJson)
    (hrendered : f.rendered = f.info.rendered input.indentation) :
    Reports input (.ok (f.offset, f.info)) (.finding f)

/-- Whether a reply shows the position depends on what the look-up comes to. -/
theorem Reports.showsPosition_eq (h : Reports input v outcome) :
    showsPosition outcome = v.showsPosition := by
  cases h with
  | @problem stage p hcode =>
    rw [showsPosition, hcode]
    cases stage <;> rfl
  | finding => rfl

/-- A reply is put together unless its data are asked for as text and cannot be written. -/
theorem mapError_assemble {fields : Fields} (setting : Reply.Setting) (headline : String)
    (details : List String) (extra : List Json) (isError : Bool)
    (hmeta : fields.get? Reply.metaField = none) {writable : Bool}
    (hwritable : (Json.obj fields).isWritable = writable) {P : Reply → Prop}
    (hP : ∀ reply, Reply.Carries isError fields reply → P reply) :
    if setting.format = .json ∧ writable = false then
      (Reply.assemble setting headline details (some fields) extra isError).mapError Error.reply =
        .error (.reply .notWritable)
    else
      ∃ reply, (Reply.assemble setting headline details (some fields) extra isError).mapError
        Error.reply = .ok reply ∧ reply.content ≠ [] ∧ P reply := by
  have hassemble := Reply.assemble_eq setting headline details extra isError hmeta
  rw [hwritable] at hassemble
  split at hassemble
  next hfails =>
    rw [if_pos hfails, hassemble]
    rfl
  next hfails =>
    obtain ⟨reply, hreply, hcarries⟩ := hassemble
    rw [if_neg hfails, hreply]
    exact ⟨reply, rfl, hcarries.content_ne_nil, hP reply hcarries⟩

/-- **The reply tells the verdict, if it can be made.** -/
theorem Reports.lookupReply_eq (h : Reports input v outcome) (setting : Reply.Setting) :
    if setting.format = .json ∧ v.isWritable input.location = false then
      lookupReply setting outcome = .error (.reply .notWritable)
    else
      ∃ reply, lookupReply setting outcome = .ok reply ∧ reply.content ≠ [] ∧
        Tells input.indentation reply v := by
  cases h with
  | @problem stage p hcode hdetails =>
    have hwritable := isWritable_structured p (p.allHints setting.configName)
    rw [hdetails, ← Bool.eq_iff_iff] at hwritable
    rw [lookupReply, Reply.failure]
    refine mapError_assemble setting _ _ _ _ (get?_structured_meta p _) hwritable ?_
    intro reply hcarries
    refine ⟨hcarries.isError_eq, ?_⟩
    rw [hcarries.code?_eq, get?_structured_code p _ hcode]
    rfl
  | @finding f hlocation hwritten hrendered =>
    have hwritable := isWritable_findingStructured f
    rw [hlocation, hwritten] at hwritable
    rw [lookupReply, Reply.success]
    refine mapError_assemble setting _ _ _ _ (get?_findingStructured_meta f) hwritable ?_
    intro reply hcarries
    obtain ⟨data, hdata, hget⟩ := hcarries.data_eq
    refine ⟨hcarries.isError_eq, ?_, data, hdata, ?_⟩
    · rw [hcarries.code?_eq, get?_findingStructured_code]
      rfl
    · rw [hget _ (by decide), hget _ (by decide), hget _ (by decide), hget _ (by decide),
        ← hrendered, ← hwritten]
      exact ⟨rfl, rfl, rfl, rfl⟩

/-- What a look-up ends with: what it comes to is reported, unless that is too high to be
written. -/
def EndsWith (c : Codec) (input : LookupInput) (v : Verdict) (outcome : Outcome) : Prop :=
  if v.fits c.levels = true then Reports input v outcome else outcome = .unwritten

/-- The failure of a stage is always reported. -/
theorem Reports.endsWith {stage : Stage} (h : Reports input (.error stage) outcome) :
    EndsWith c input (.error stage) outcome := by
  have hfits : Verdict.fits c.levels (.error stage) = true := rfl
  rw [EndsWith, if_pos hfits]
  exact h

/-- In a loaded session the tool reports what the look-up comes to, and nothing is cancelled. -/
theorem endsWith_lookupIn (hc : c.Laws) {session : Session} (h : session.Loaded) (fs : FileSystem)
    (input : LookupInput) :
    EndsWith c input (verdictIn session input) (lookupIn c fs (.standard c) input session).1 ∧
      verdictIn session input ≠ .error .cancellation := by
  rw [verdictIn, lookupIn]
  cases hfile : session.oracle.findDocument input.location.file with
  | none =>
    exact ⟨Reports.endsWith
      (.problem rfl (iff_of_true (fitsBelow_documentProblem input session) rfl)), nofun⟩
  | some document =>
    dsimp only
    cases Text.offset? (((session.oracle.snapshot.document? document).map Document.text).getD "")
        input.location.line input.location.column with
    | none => exact ⟨Reports.endsWith (.problem rfl (fitsBelow_positionDetails_iff _ _)), nofun⟩
    | some offset =>
      -- In a loaded session the look-up runs to its end, and the channel hands its answer on.
      obtain ⟨answer, hanswer⟩ := h.run_inFile (Oracle.findDocument_self hfile)
        (effectiveOptions input session) offset
      dsimp only
      rw [standard_eq_service, ask_service hc]
      rcases hrun : (Lookup.inFile session.oracle (effectiveOptions input session) document
        offset).run.run 0 with ⟨result, polls⟩
      obtain rfl : result = .ok answer := by rw [← hanswer, hrun]
      cases answer with
      | none =>
        refine ⟨Reports.endsWith (.problem rfl ?_), nofun⟩
        have hcontext : ∀ text : String, (Json.str text).FitsBelow 2 :=
          Json.fitsBelow_str (by decide)
        rw [noTypeProblem, lookupProblem, List.forall_mem_append, List.forall_mem_singleton,
          and_iff_left (hcontext _)]
        exact fitsBelow_positionDetails_iff _ _
      | some info =>
        refine ⟨?_, nofun⟩
        simp only [EndsWith, Verdict.fits, Prod.map, Except.mapError, Except.bind, delivered, id,
          decide_eq_true_eq]
        -- A tree that passes the channel is not too high, so the tool can write it a second time.
        by_cases hheight : info.tree.height ≤ c.levels
        · have hwrite : c.write? 0 info.tree = some info.tree.toJson := by
            rw [hc.write?_eq, if_pos (by simpa using hheight)]
          simp only [if_pos hheight, hwrite]
          exact .finding (f := ⟨identify fs session document, input.location, offset, info,
            info.tree.toJson, info.rendered input.indentation,
            (effectiveOptions input session).displayParts⟩) rfl rfl rfl
        · simp only [if_neg hheight]
          rfl

/-! ### Replies -/

variable {τ : Type} [Sub τ] [LE τ] [DecidableLE τ] {s : Server τ} {h : Host τ}

/-- Without a session the tool reports what is wrong with it. -/
theorem lookup_of_sessionFor_error {service : Service} {e : Session.Error} {p : Reply.Problem}
    (hsession : (s.sessionFor h input.location.file input.config).1 = .error e)
    (hproblem : sessionProblem? input e = some p) :
    (lookup c h service s input).1 =
      lookupReply (s.setting h.token input.location.format) (.problem p) := by
  rw [lookup]
  rcases hresult : s.sessionFor h input.location.file input.config with ⟨result, s'⟩
  rw [hresult] at hsession
  obtain rfl : result = .error e := hsession
  simp only [hproblem]

/-- With a session the tool reports what the look-up in the session ends with. -/
theorem lookup_of_sessionFor_ok {service : Service} {session : Session}
    (hsession : (s.sessionFor h input.location.file input.config).1 = .ok session) :
    (lookup c h service s input).1 =
      if showsPosition (lookupIn c h.files service input session).1 &&
          !input.location.isShowable then .error .position
      else lookupReply (s.setting h.token input.location.format)
        (lookupIn c h.files service input session).1 := by
  rw [lookup]
  rcases hresult : s.sessionFor h input.location.file input.config with ⟨result, s'⟩
  rw [hresult] at hsession
  obtain rfl : result = .ok session := hsession
  rfl

/-- The tool ends with what the look-up comes to, whichever stage that is. -/
theorem exists_endsWith (hc : c.Laws) (hs : s.Sound) (hh : h.Ordinary) (input : LookupInput) :
    verdict h s input ≠ .error .cancellation ∧
      ∃ outcome, EndsWith c input (verdict h s input) outcome ∧
        (lookup c h (.standard c) s input).1 =
          if showsPosition outcome && !input.location.isShowable then .error .position
          else lookupReply (s.setting h.token input.location.format) outcome := by
  -- A path that is resolved is normal and leads to a file, as it has to for its session.
  obtain ⟨hresolved, hpath⟩ := hs.resolve hh input.location.file input.config
  rcases hresolve : s.resolve h.files input.location.file input.config with ⟨missing | path, s'⟩
  · have hsession : (s.sessionFor h input.location.file input.config).1 =
        .error (.missing missing) := by
      rw [Server.sessionFor, hresolve]
    have hreports : Reports input (.error .snapshot) (.problem
        (lookupProblem .configNotFound (Session.Error.missing missing).message (askedFor input))) :=
      .problem rfl (iff_of_true (fitsBelow_askedFor input) rfl)
    rw [lookup_of_sessionFor_error hsession rfl, verdict, hresolve]
    refine ⟨by simp, _, hreports.endsWith, ?_⟩
    rw [hreports.showsPosition_eq]
    rfl
  · rw [hresolve] at hresolved hpath
    obtain ⟨p, rfl, hfile⟩ := hpath path rfl
    have hsessionFor : (s.sessionFor h input.location.file input.config).1 =
        (s'.session h p.text).1 := by
      rw [Server.sessionFor, hresolve]
    obtain ⟨-, ⟨session, hsession, -, hloaded⟩ | ⟨cause, -, hsession⟩⟩ :=
      hresolved.session hh hfile
    · obtain ⟨hends, hne⟩ := endsWith_lookupIn hc hloaded h.files input
      rw [lookup_of_sessionFor_ok (hsessionFor.trans hsession), verdict, hresolve]
      simp only [hsession]
      exact ⟨hne, _, hends, rfl⟩
    · have hreports : Reports input (.error .session) (.problem (lookupProblem .sessionFailure
          (Session.Error.build p.text cause).message
          ((askedFor input).put "config_path" (.str p.text)))) :=
        .problem rfl (iff_of_true (Fields.forall_put (fitsBelow_askedFor input)
          (Json.fitsBelow_str (by decide) p.text)) rfl)
      rw [lookup_of_sessionFor_error (hsessionFor.trans hsession) rfl, verdict, hresolve]
      simp only [hsession]
      refine ⟨by simp, _, hreports.endsWith, ?_⟩
      rw [hreports.showsPosition_eq]
      rfl

/-- **What a look-up ends with.** Its tree is too high, or it fails at showing the position or at
writing the data, or there is a reply that tells what it comes to. -/
theorem lookup_cases (hc : c.Laws) (hs : s.Sound) (hh : h.Ordinary) (input : LookupInput) :
    ((verdict h s input).fits c.levels = false ∧
        (lookup c h (.standard c) s input).1 = .error .unwritten) ∨
      ((verdict h s input).showsPosition = true ∧ input.location.isShowable = false ∧
        (lookup c h (.standard c) s input).1 = .error .position) ∨
      (Reply.Format.chosen input.location.format none = .json ∧
        (verdict h s input).isWritable input.location = false ∧
        (lookup c h (.standard c) s input).1 = .error (.reply .notWritable)) ∨
      ((verdict h s input).fits c.levels = true ∧
        ((verdict h s input).showsPosition = true → input.location.isShowable = true) ∧
        (Reply.Format.chosen input.location.format none = .json →
          (verdict h s input).isWritable input.location = true) ∧
        ∃ reply, (lookup c h (.standard c) s input).1 = .ok reply ∧ reply.content ≠ [] ∧
          Tells input.indentation reply (verdict h s input)) := by
  obtain ⟨-, outcome, hends, heq⟩ := exists_endsWith hc hs hh input
  rw [EndsWith] at hends
  rw [heq]
  split at hends
  next hfits =>
    have hreply := hends.lookupReply_eq (s.setting h.token input.location.format)
    rw [hends.showsPosition_eq]
    right
    split
    next hposition =>
      obtain ⟨hshows, hshowable⟩ : (verdict h s input).showsPosition = true ∧
          input.location.isShowable = false := by simpa using hposition
      exact .inl ⟨hshows, hshowable, rfl⟩
    next hposition =>
      split at hreply
      next hfails => exact .inr (.inl ⟨hfails.1, hfails.2, hreply⟩)
      next hfails =>
        exact .inr (.inr
          ⟨hfits, by simpa using hposition, by simpa [Server.setting] using hfails, hreply⟩)
  next hfits =>
    subst hends
    exact .inl ⟨Bool.eq_false_iff.2 hfits, rfl⟩

/-- There is a reply when the tree is not too high, the position can be shown and the data can be
written. -/
theorem exists_reply (hc : c.Laws) (hs : s.Sound) (hh : h.Ordinary)
    (hfits : (verdict h s input).fits c.levels = true)
    (hshown : (verdict h s input).showsPosition = true → input.location.isShowable = true)
    (hwritten : Reply.Format.chosen input.location.format none = .json →
      (verdict h s input).isWritable input.location = true) :
    ∃ reply, (lookup c h (.standard c) s input).1 = .ok reply ∧ reply.content ≠ [] ∧
      Tells input.indentation reply (verdict h s input) := by
  rcases lookup_cases hc hs hh input with
    ⟨hhigh, -⟩ | ⟨hshows, hhidden, -⟩ | ⟨hformat, hunwritable, -⟩ | ⟨-, -, -, hreply⟩
  · exact absurd hfits (by simp [hhigh])
  · exact absurd (hshown hshows) (by simp [hhidden])
  · exact absurd (hwritten hformat) (by simp [hunwritable])
  · exact hreply

/-- A look-up in a session there is does not fail for want of a session. -/
theorem verdictIn_ne_session (session : Session) (input : LookupInput) :
    verdictIn session input ≠ .error .session := by
  unfold verdictIn
  split
  · nofun
  · dsimp only
    split
    · nofun
    · split <;> nofun

/-- There is a file for the snapshot that is resolved, so a session fails only in loading it. -/
theorem load_of_verdict_eq (hs : s.Sound) (hh : h.Ordinary)
    (hverdict : verdict h s input = .error .session) : ∃ path cause,
      (s.resolve h.files input.location.file input.config).1 = .ok path ∧
        Session.load h.files path = .error cause := by
  obtain ⟨hresolved, hpath⟩ := hs.resolve hh input.location.file input.config
  rw [verdict] at hverdict
  rcases hresolve : s.resolve h.files input.location.file input.config with ⟨missing | path, s'⟩
  · rw [hresolve] at hverdict
    cases hverdict
  · rw [hresolve] at hresolved hpath hverdict
    obtain ⟨p, rfl, hfile⟩ := hpath path rfl
    obtain ⟨-, ⟨session, hsession, -⟩ | ⟨cause, hload, -⟩⟩ := hresolved.session hh hfile
    · simp only [hsession] at hverdict
      exact absurd hverdict (verdictIn_ne_session session input)
    · exact ⟨p.text, cause, rfl, hload⟩

/-- A verdict that is told without a cancellation has one of the other codes, or none. -/
theorem Tells.code?_ne {indentation : Int} {reply : Reply} (htells : Tells indentation reply v)
    (hv : v ≠ .error .cancellation) : reply.code? ≠ some Reply.Code.cancelled.word ∧
      reply.code? ≠ some Reply.Code.unknown.word := by
  match v, htells with
  | .ok _, ⟨_, hcode, _⟩ => simp [hcode]
  | .error stage, ⟨_, hcode⟩ =>
    rw [hcode]
    cases stage with
    | cancellation => exact absurd rfl hv
    | _ => decide

/-- **Failures are told by the first stage that is not passed.** Whenever a look-up ends with a
reply, the reply tells what the look-up comes to. A session fails only when its file cannot be
loaded, nothing is ever cancelled, and the code for everything else does not occur either. -/
theorem lookup_tells_verdict (hc : c.Laws) (hs : s.Reachable) (hh : h.Ordinary)
    (input : LookupInput) {reply : Reply}
    (hreply : (lookup c h (.standard c) s input).1 = .ok reply) :
    Tells input.indentation reply (verdict h s input) ∧
      (verdict h s input = .error .session → ∃ path cause,
        (s.resolve h.files input.location.file input.config).1 = .ok path ∧
          Session.load h.files path = .error cause) ∧
      verdict h s input ≠ .error .cancellation ∧
      reply.code? ≠ some Reply.Code.cancelled.word ∧
        reply.code? ≠ some Reply.Code.unknown.word := by
  have hne := (exists_endsWith hc hs.sound hh input).1
  have htells : Tells input.indentation reply (verdict h s input) := by
    rcases lookup_cases hc hs.sound hh input with
      ⟨-, hend⟩ | ⟨-, -, hend⟩ | ⟨-, -, hend⟩ | ⟨-, -, -, reply', hend, -, htells⟩
    · exact nomatch hreply.symm.trans hend
    · exact nomatch hreply.symm.trans hend
    · exact nomatch hreply.symm.trans hend
    · obtain rfl := Except.ok.inj (hreply.symm.trans hend)
      exact htells
  exact ⟨htells, load_of_verdict_eq hs.sound hh, hne, htells.code?_ne hne⟩

/-- **There is a reply unless the tree is too high or a number is too large.** The tree of a type
has to be written in any case. The position has to be shown if the look-up gets as far as the
position, and all data have to be written if the client asks for them as text. A look-up that ends
without a reply fails at one of these three. -/
theorem lookup_replies_iff (hc : c.Laws) (hs : s.Reachable) (hh : h.Ordinary)
    (input : LookupInput) :
    ((∃ reply, (lookup c h (.standard c) s input).1 = .ok reply ∧ reply.content ≠ []) ↔
        (verdict h s input).fits c.levels = true ∧
          ((verdict h s input).showsPosition = true → input.location.isShowable = true) ∧
          (Reply.Format.chosen input.location.format none = .json →
            (verdict h s input).isWritable input.location = true)) ∧
      ∀ e, (lookup c h (.standard c) s input).1 = .error e →
        e = .unwritten ∧ (verdict h s input).fits c.levels = false ∨
          e = .position ∧ input.location.isShowable = false ∨
          e = .reply .notWritable ∧ (verdict h s input).isWritable input.location = false := by
  rcases lookup_cases hc hs.sound hh input with ⟨hhigh, hend⟩ | ⟨hshows, hshowable, hend⟩ |
    ⟨hformat, hwritable, hend⟩ | ⟨hfits, hshown, hwritten, reply, hend, hcontent, -⟩
  · refine ⟨iff_of_false ?_ ?_, ?_⟩
    · rintro ⟨reply, hreply, -⟩
      exact nomatch hend.symm.trans hreply
    · rintro ⟨hfits, -⟩
      exact absurd hfits (by simp [hhigh])
    · intro e he
      exact .inl ⟨(Except.error.inj (hend.symm.trans he)).symm, hhigh⟩
  · refine ⟨iff_of_false ?_ ?_, ?_⟩
    · rintro ⟨reply, hreply, -⟩
      exact nomatch hend.symm.trans hreply
    · rintro ⟨-, hshown, -⟩
      exact absurd (hshown hshows) (by simp [hshowable])
    · intro e he
      exact .inr (.inl ⟨(Except.error.inj (hend.symm.trans he)).symm, hshowable⟩)
  · refine ⟨iff_of_false ?_ ?_, ?_⟩
    · rintro ⟨reply, hreply, -⟩
      exact nomatch hend.symm.trans hreply
    · rintro ⟨-, -, hwritten⟩
      exact absurd (hwritten hformat) (by simp [hwritable])
    · intro e he
      exact .inr (.inr ⟨(Except.error.inj (hend.symm.trans he)).symm, hwritable⟩)
  · refine ⟨iff_of_true ⟨reply, hend, hcontent⟩ ⟨hfits, hshown, hwritten⟩, ?_⟩
    intro e he
    exact nomatch hend.symm.trans he

/-! ### A sample

A file with a snapshot, and requests for the first column of some line of the document in it. -/

section

variable (content : ByteArray)

/-- The sample lies in a file. -/
def sampleHost : Host ℤ :=
  ⟨Sessions.sampleFiles content 1, Session.load (Sessions.sampleFiles content 1), 0, ""⟩

/-- A server with room for one session. -/
def sampleServer : Server ℤ :=
  ⟨⟨.empty 1 none, [], 0⟩, [], none⟩

/-- A request for the start of a line. No level of the type is expanded. -/
def sampleInput (format : Option String) (line : Int) : LookupInput :=
  ⟨⟨format, "list.ts", line, 1⟩, some "/s", { maxDepth := 0 }, false, 2⟩

theorem ordinary_sampleHost : (sampleHost content).Ordinary :=
  ⟨rfl, show isAbsolute "/" = true by decide⟩

theorem reachable_sampleServer : sampleServer.Reachable :=
  .start 1 none [] none

/-- On the sample's server a look-up comes to what it comes to in the session for the file. -/
theorem verdict_sample {snapshot : Snapshot} (hparse : Snapshot.parse content = .ok snapshot)
    (format : Option String) (line : Int) :
    verdict (sampleHost content) sampleServer (sampleInput format line) =
      verdictIn (Session.sample snapshot) (sampleInput format line) := by
  have habsolute : (sampleHost content).files.absolute "/s" = "/s" := by
    show Path.absolute "/" "/s" = "/s"
    decide +kernel
  have hstat := Sessions.stat_sampleFiles content 1
  have hresolve : sampleServer.resolve (sampleHost content).files "list.ts" (some "/s") =
      (.ok "/s", sampleServer) := by
    have hfile : (sampleHost content).files.isFile "/s" = true := by
      rw [FileSystem.isFile, sampleHost, hstat]
    rw [Server.resolve, Project.resolve_given (by decide), habsolute, if_pos hfile]
  have hload : Session.load (sampleHost content).files "/s" = .ok { snapshot, base := "/" } := by
    have hbase : Path.parent "/s" = "/" := by decide +kernel
    rw [Session.load, habsolute, hbase, sampleHost, hstat]
    simp only [hparse]
  have hsession : (sampleServer.session (sampleHost content) "/s").1 =
      .ok (Session.sample snapshot) := by
    have hmodified : Sessions.modified (sampleHost content).files "/s" = .ok (some 1) :=
      Sessions.modified_sampleFiles content 1
    have hget : sampleServer.sessions.cache.get (sampleHost content).now "/s" =
        (none, .empty 1 none) := rfl
    have hbuilder : (sampleHost content).builder "/s" = .ok { snapshot, base := "/" } := hload
    rw [Server.session, Sessions.getOrBuild, habsolute, Sessions.getOrBuildAt, hmodified]
    simp only [hget, Sessions.build, hbuilder]
    rfl
  rw [verdict]
  simp only [sampleInput, hresolve]
  rw [hsession]

end

/-- Whether a verdict is that a symbol of some name is found at the start of a document, with a type
that is a single node. -/
def findsFirst (name : String) : Verdict → Bool
  | .ok (0, info) => info.name == name && info.tree.isLeaf
  | _ => false

theorem of_findsFirst {name : String} {v : Verdict} (hv : findsFirst name v = true) :
    ∃ info, v = .ok (0, info) ∧ info.name = name ∧ info.tree.isLeaf = true := by
  unfold findsFirst at hv
  split at hv
  next info =>
    obtain ⟨hname, hleaf⟩ := Bool.and_eq_true_iff.1 hv
    exact ⟨info, rfl, eq_of_beq hname, hleaf⟩
  · cases hv

/-- Whether a verdict is that a position lies outside the document. -/
def isOutside : Verdict → Bool
  | .error .position => true
  | _ => false

theorem of_isOutside {v : Verdict} (hv : isOutside v = true) : v = .error .position := by
  unfold isOutside at hv
  split at hv
  · rfl
  · cases hv

/-- The first line of the sample's document begins with the symbol, whose type is a single node, and
there is no line as far down as the second one. -/
theorem exists_verdict_sample : ∃ content snapshot info, Snapshot.parse content = .ok snapshot ∧
    verdict (sampleHost content) sampleServer (sampleInput none 1) = .ok (0, info) ∧
    info.name = "head" ∧ info.tree.isLeaf = true ∧
    ∀ format, verdict (sampleHost content) sampleServer (sampleInput format (2 ^ 64)) =
      .error .position := by
  -- The content is made opaque, so that no step evaluates its bytes.
  obtain ⟨content, snapshot, hparse, htest⟩ : ∃ content snapshot,
      Snapshot.parse content = .ok snapshot ∧
        (findsFirst "head" (verdictIn (.sample snapshot) (sampleInput none 1)) &&
          isOutside (verdictIn (.sample snapshot) (sampleInput none (2 ^ 64)))) = true :=
    ⟨Snapshot.sampleText.toUTF8, Snapshot.exists_of_parse_toUTF8 (by decide +kernel)⟩
  obtain ⟨hfirst, houtside⟩ := Bool.and_eq_true_iff.1 htest
  obtain ⟨info, hverdict, hname, hleaf⟩ := of_findsFirst hfirst
  refine ⟨content, snapshot, info, hparse, ?_, hname, hleaf, fun format ↦ ?_⟩
  · rw [verdict_sample content hparse, hverdict]
  · rw [verdict_sample content hparse]
    exact of_isOutside houtside

theorem markdown_ne_json : Reply.Format.chosen none none ≠ .json := by
  decide +kernel

theorem isShowable_sampleInput (format : Option String) {line : Int}
    (hline : line = 1 ∨ line = 2 ^ 64) :
    (sampleInput format line).location.isShowable = true := by
  show (Text.isShowable line && Text.isShowable 1) = true
  rcases hline with rfl | rfl <;> decide +kernel

/-- The symbol at the start of the document is told. -/
theorem lookup_tells_verdict_sample : ∃ content info reply,
    verdict (sampleHost content) sampleServer (sampleInput none 1) = .ok (0, info) ∧
      info.name = "head" ∧
      (lookup .standard (sampleHost content) (.standard .standard) sampleServer
        (sampleInput none 1)).1 = .ok reply ∧
      reply.isError = false ∧ reply.code? = none := by
  obtain ⟨content, -, info, -, hverdict, hname, hleaf, -⟩ := exists_verdict_sample
  have hfits : (verdict (sampleHost content) sampleServer (sampleInput none 1)).fits
      Codec.standard.levels = true := by
    rw [hverdict, Verdict.fits, Tree.height_of_isLeaf hleaf]
    decide
  obtain ⟨reply, hreply, -⟩ := exists_reply Codec.laws_standard reachable_sampleServer.sound
    (ordinary_sampleHost content) hfits (fun _ ↦ isShowable_sampleInput none (.inl rfl))
    (fun hjson ↦ absurd hjson markdown_ne_json)
  obtain ⟨htells, -⟩ := lookup_tells_verdict Codec.laws_standard reachable_sampleServer
    (ordinary_sampleHost content) (sampleInput none 1) hreply
  rw [hverdict] at htells
  exact ⟨content, info, reply, hverdict, hname, hreply, htells.1, htells.2.1⟩

/-- A line far outside the document is answered in Markdown. -/
theorem lookup_replies_iff_sample : ∃ content snapshot reply,
    Snapshot.parse content = .ok snapshot ∧
      (lookup .standard (sampleHost content) (.standard .standard) sampleServer
        (sampleInput none (2 ^ 64))).1 = .ok reply ∧ reply.content ≠ [] := by
  obtain ⟨content, snapshot, -, hparse, -, -, -, houtside⟩ := exists_verdict_sample
  have hfits : (verdict (sampleHost content) sampleServer (sampleInput none (2 ^ 64))).fits
      Codec.standard.levels = true := by
    rw [houtside]
    rfl
  obtain ⟨reply, hreply, hcontent⟩ :=
    (lookup_replies_iff Codec.laws_standard reachable_sampleServer (ordinary_sampleHost content)
      (sampleInput none (2 ^ 64))).1.2
      ⟨hfits, fun _ ↦ isShowable_sampleInput none (.inr rfl),
        fun hjson ↦ absurd hjson markdown_ne_json⟩
  exact ⟨content, snapshot, reply, hparse, hreply, hcontent⟩

/-- The same line is not answered when the data are asked for as text. -/
theorem far_line_without_reply : ∃ content snapshot, Snapshot.parse content = .ok snapshot ∧
    (sampleHost content).Ordinary ∧ sampleServer.Reachable ∧
      ¬∃ reply, (lookup .standard (sampleHost content) (.standard .standard) sampleServer
        (sampleInput (some "json") (2 ^ 64))).1 = .ok reply := by
  obtain ⟨content, snapshot, -, hparse, -, -, -, houtside⟩ := exists_verdict_sample
  refine ⟨content, snapshot, hparse, ordinary_sampleHost content, reachable_sampleServer, ?_⟩
  rintro ⟨reply, hreply⟩
  have hjson : Reply.Format.chosen (some "json") none = .json := by decide +kernel
  have hwritable : Verdict.isWritable (sampleInput (some "json") (2 ^ 64)).location
      (.error .position) = false := by decide +kernel
  rcases lookup_cases Codec.laws_standard reachable_sampleServer.sound
    (ordinary_sampleHost content) (sampleInput (some "json") (2 ^ 64)) with
    ⟨-, hend⟩ | ⟨-, hhidden, -⟩ | ⟨-, -, hend⟩ | ⟨-, -, hwritten, -⟩
  · exact nomatch hreply.symm.trans hend
  · exact nomatch hhidden.symm.trans (isShowable_sampleInput (some "json") (.inr rfl))
  · exact nomatch hreply.symm.trans hend
  · rw [houtside, hwritable] at hwritten
    exact absurd (hwritten hjson) (by decide)

end Tool

end TypeLens
