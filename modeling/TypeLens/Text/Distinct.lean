/-!
# Lists without repetitions

`distinct` keeps the first occurrence of each text of a list, in order.
-/

namespace TypeLens.Text

/-- The elements of a list without repetitions, in order of first occurrence. -/
def distinct : List String → List String
  | [] => []
  | s :: ss => s :: (distinct ss).filter (· != s)

/-- No element is lost and none is added. -/
@[simp]
theorem mem_distinct {s : String} {ss : List String} : s ∈ distinct ss ↔ s ∈ ss := by
  induction ss with
  | nil => simp [distinct]
  | cons t ts ih => by_cases h : s = t <;> simp [distinct, ih, h]

/-- No element is repeated. -/
theorem nodup_distinct (ss : List String) : (distinct ss).Nodup := by
  induction ss with
  | nil => simp [distinct]
  | cons t ts ih =>
    rw [distinct, List.nodup_cons]
    exact ⟨by simp, ih.filter _⟩

end TypeLens.Text
