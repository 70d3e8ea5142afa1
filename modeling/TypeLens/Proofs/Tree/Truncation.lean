import TypeLens.Proofs.Tree.Shape

/-!
# Truncations of a tree

`Tree.Truncation n t t'` says that `t` is what is left of `t'` when it is drawn with less room: with
`n` levels of objects, and with fewer entries at a node.

* Where no level is left, `t` shows a primitive type as `t'` does, and any other type as a basic
  leaf, which may stand for any subtree of `t'`.
* Where a level is left, the two nodes are of the same kind and have the same label and flags. The
  properties of an object and the signatures of a function are the first ones of `t'`, the members
  of a union are some of `t'` in the same order, and every other branch has its counterpart.
* An excess counter makes up for what is not shown: shown and left out together are as many in `t`
  as in `t'`.

Only the step from an object to one of its properties uses up a level.
-/

namespace TypeLens

/-- What a property says apart from its type. -/
def Property.header {α : Type} (p : Property α) : String × Bool × Bool :=
  (p.name, p.optional, p.readonly)

/-- What a parameter says apart from its type. -/
def Parameter.header {α : Type} (p : Parameter α) : String × Bool × Bool :=
  (p.name, p.optional, p.rest)

/-- What a signature says apart from its types. -/
def Signature.header {α : Type} (s : Signature α) : List (String × Bool × Bool) :=
  s.parameters.map Parameter.header

namespace Tree

/-- The first tree is a truncation of the second, with a number of object levels left. The trees
that correspond to the branches of the first are called `shown`. -/
inductive Truncation : (levels : Nat) → Tree → Tree → Prop
  | primitive (n : Nat) (l : Label) : Truncation n (.primitive l) (.primitive l)
  /-- Where no level is left, a basic leaf stands for anything. -/
  | cut (l : Label) (t' : Tree) : Truncation 0 (.basic l) t'
  | basic (n : Nat) (l : Label) : Truncation (n + 1) (.basic l) (.basic l)
  | reference (n : Nat) (l : Label) : Truncation (n + 1) (.reference l) (.reference l)
  | enumMember (n : Nat) (l : Label) (m : String) :
    Truncation (n + 1) (.enumMember l m) (.enumMember l m)
  /-- Some members in the same order. -/
  | union {n : Nat} {l : Label} {ms shown ms' : List Tree} {e e' : Int}
    (hshown : shown.Sublist ms') (hlength : ms.length = shown.length)
    (hmembers : ∀ p ∈ ms.zip shown, Truncation (n + 1) p.1 p.2)
    (htotal : (ms.length : Int) + e = ms'.length + e') :
    Truncation (n + 1) (.union l ms e) (.union l ms' e')
  | intersection {n : Nat} {l : Label} {ms ms' : List Tree} (hlength : ms.length = ms'.length)
    (hmembers : ∀ p ∈ ms.zip ms', Truncation (n + 1) p.1 p.2) :
    Truncation (n + 1) (.intersection l ms) (.intersection l ms')
  /-- The first properties, with one level less below them. -/
  | object {n : Nat} {l : Label} {ps shown ps' : List (Property Tree)} {e e' : Int}
    (hshown : shown <+: ps') (hheaders : ps.map Property.header = shown.map Property.header)
    (htypes : ∀ p ∈ ps.zip shown, Truncation n p.1.type p.2.type)
    (htotal : (ps.length : Int) + e = ps'.length + e') :
    Truncation (n + 1) (.object l ps e) (.object l ps' e')
  | array {n : Nat} {l : Label} {r : Bool} {t t' : Tree} (h : Truncation (n + 1) t t') :
    Truncation (n + 1) (.array l r t) (.array l r t')
  | tuple {n : Nat} {l : Label} {r : Bool} {ts ts' : List Tree} (hlength : ts.length = ts'.length)
    (helements : ∀ p ∈ ts.zip ts', Truncation (n + 1) p.1 p.2) :
    Truncation (n + 1) (.tuple l r ts) (.tuple l r ts')
  /-- The first signatures. Equal headers mean as many parameters. -/
  | function {n : Nat} {l : Label} {ss shown ss' : List (Signature Tree)} {e e' : Int}
    (hshown : shown <+: ss') (hheaders : ss.map Signature.header = shown.map Signature.header)
    (htypes : ∀ p ∈ ss.zip shown, ∀ q ∈ p.1.types.zip p.2.types, Truncation (n + 1) q.1 q.2)
    (htotal : (ss.length : Int) + e = ss'.length + e') :
    Truncation (n + 1) (.function l ss e) (.function l ss' e')
  | promise {n : Nat} {l : Label} {t t' : Tree} (h : Truncation (n + 1) t t') :
    Truncation (n + 1) (.promise l t) (.promise l t')
  | generic {n : Nat} {l : Label} {ts ts' : List Tree} (hlength : ts.length = ts'.length)
    (harguments : ∀ p ∈ ts.zip ts', Truncation (n + 1) p.1 p.2) :
    Truncation (n + 1) (.generic l ts) (.generic l ts')

/-- A basic leaf is a truncation of itself, whether a level is left or not. -/
theorem Truncation.basic_self (n : Nat) (l : Label) : Truncation n (.basic l) (.basic l) := by
  cases n with
  | zero => exact .cut l _
  | succ n => exact .basic n l

/-! ### Truncations of lists -/

section

variable {α : Type} {f g : α → Tree} {n : Nat}

/-- Drawing the items of a list twice. -/
theorem Truncation.of_mem_zip_map {xs : List α} (h : ∀ x ∈ xs, Truncation n (f x) (g x)) :
    ∀ p ∈ (xs.map f).zip (xs.map g), Truncation n p.1 p.2 := by
  intro p hp
  rw [List.zip_map', List.mem_map] at hp
  obtain ⟨x, hx, rfl⟩ := hp
  exact h x hx

end

end Tree

end TypeLens
