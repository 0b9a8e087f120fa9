import Mathlib.Data.List.Basic
import Eligibility.Distinct

/-!
# First occurrences

* `mem_distinct`, `nodup_distinct`, `distinct_sublist`: a list without repetitions;
* `distinct_concat`: one more element at the end.
-/

namespace Eligibility

variable {α : Type} [DecidableEq α]

theorem mem_distinct {x : α} {xs : List α} : x ∈ distinct xs ↔ x ∈ xs := by
  induction xs with
  | nil => exact Iff.rfl
  | cons y ys ih =>
    rw [distinct, List.mem_cons, List.mem_cons, List.mem_filter, ih, decide_eq_true_eq]
    exact ⟨.imp_right And.left, fun h => by by_cases hx : x = y <;> simp_all⟩

theorem nodup_distinct (xs : List α) : (distinct xs).Nodup := by
  induction xs with
  | nil => exact List.nodup_nil
  | cons y ys ih =>
    refine List.nodup_cons.2 ⟨fun h => ?_, ih.filter _⟩
    exact of_decide_eq_true (List.mem_filter.1 h).2 rfl

theorem distinct_sublist (xs : List α) : (distinct xs).Sublist xs := by
  induction xs with
  | nil => exact .refl _
  | cons y ys ih => exact (List.filter_sublist.trans ih).cons_cons y

theorem distinct_concat (xs : List α) (x : α) :
    distinct (xs ++ [x]) = if x ∈ xs then distinct xs else distinct xs ++ [x] := by
  induction xs with
  | nil => rfl
  | cons y ys ih =>
    rw [List.cons_append, distinct, ih, distinct]
    by_cases hy : x = y
    · subst hy
      by_cases hx : x ∈ ys <;> simp [hx]
    · by_cases hx : x ∈ ys <;> simp [hx, hy]

end Eligibility
