import Eligibility.Proofs.Plan.Condition

/-!
# What a negation compiles to

`NOT` is written in front of what it negates, except in front of a list comparison, whose plan is
told that it is negated. A plan that has no use for this forgets it.

* `Condition.grouped`: explicit parentheses around a condition;
* `Comparison.Unnegated`: a comparison that never holds, negated or not;
* `Comparison.formula_plan_negated`: every other list comparison is negated by its plan;
* **`Condition.not_means`**: what the negation of a condition reads as;
* `ageInNumber_unnegated`: a condition whose negation is false with it.
-/

namespace Eligibility

open Sql

/-! ## Comparisons -/

namespace Comparison

/-- The comparison is on a column of the candidate, by its field or for want of one, and its
operator has no use for its operand. -/
def Unnegated (m : Mapping) (c : Comparison) : Prop :=
  c.test? = none ∧
    match m.resolve? c.field with
    | some (.base _ _) => True
    | some (.gridChild _ _ _) | some (.grid _ _) => False
    | none => c.unknownChild? m = none

variable {m : Mapping} {c : Comparison}

theorem planOn_of_test? (h : c.test? = none) (t : Term) (nullOnly negated : Bool) :
    (c.planOn m t nullOnly negated).predicate = .never := by
  rw [planOn, h]

theorem formula_planOnGrid_negated (table column : String) (nullOnly : Bool) :
    (c.planOnGrid m table column nullOnly true).predicate.formula =
      .not (c.planOnGrid m table column nullOnly false).predicate.formula :=
  rfl

theorem predicate_of_unnegated (h : c.Unnegated m) (negated : Bool) :
    (c.plan m negated).predicate = .never := by
  obtain ⟨htest, hfield⟩ := h
  change (c.planRest m negated).predicate = .never
  rw [planRest]
  cases hr : m.resolve? c.field with
  | none =>
    rw [hr] at hfield
    have hchild : c.unknownChild? m = none := hfield
    dsimp only
    rw [hchild]
    exact planOn_of_test? htest _ _ _
  | some r =>
    rw [hr] at hfield
    cases r with
    | base column d => exact planOn_of_test? htest _ _ _
    | _ => exact hfield.elim

/-- The plan of a list comparison turns its predicate round when it is negated. -/
theorem formula_plan_negated (hm : m.Usable IsLiteral) (hid : IsIdentifier c.field)
    (hop : c.op = .isIn) (h : ¬ c.Unnegated m) :
    (c.plan m true).predicate.formula = .not (c.plan m false).predicate.formula := by
  by_cases htest : c.test?.isSome = true
  · obtain ⟨vs, hvs⟩ := Condition.test?_of_isIn hop htest
    rw [Predicate.formula, clauses_negated hm hid hvs]
    rfl
  · rw [Option.not_isSome_iff_eq_none] at htest
    change (c.planRest m true).predicate.formula = .not (c.planRest m false).predicate.formula
    rw [planRest, planRest]
    split
    · rename_i column d hr
      exact absurd ⟨htest, by rw [hr]; trivial⟩ h
    · exact formula_planOnGrid_negated _ _ _
    · rfl
    · rename_i hr
      cases hchild : c.unknownChild? m with
      | some child => exact formula_planOnGrid_negated _ _ _
      | none => exact absurd ⟨htest, by rw [hr]; exact hchild⟩ h

end Comparison

/-! ## Conditions -/

namespace Condition

/-- The condition in `n` pairs of explicit parentheses. -/
def grouped (c : Condition) : Nat → Condition
  | 0 => c
  | n + 1 => group (c.grouped n)

@[simp]
theorem list?_group (c : Condition) : (group c).list? = c.list? :=
  rfl

@[simp]
theorem list?_grouped (c : Condition) (n : Nat) : (c.grouped n).list? = c.list? := by
  induction n with
  | zero => rfl
  | succ n ih => rw [grouped, list?_group, ih]

theorem leaves_grouped (c : Condition) (n : Nat) : (c.grouped n).leaves = c.leaves := by
  induction n with
  | zero => rfl
  | succ n ih => exact ih

theorem formula_predicate_grouped (m : Mapping) (c : Condition) (n : Nat) :
    ((c.grouped n).predicate m).formula = (c.predicate m).formula := by
  induction n with
  | zero => rfl
  | succ n ih => rw [grouped, predicate, Predicate.formula_paren, ih]

theorem formula_predicate_ungrouped (m : Mapping) (c : Condition) :
    (c.predicate m).formula = (c.ungrouped.predicate m).formula := by
  induction c with
  | group c ih => exact ih
  | _ => rfl

/-- A list comparison in groups reads as the comparison. -/
theorem formula_predicate_list (m : Mapping) {c : Condition} {l : Comparison}
    (h : c.list? = some l) : (c.predicate m).formula = (l.plan m false).predicate.formula := by
  rw [list?] at h
  split at h
  · rename_i l' hu
    split at h
    · cases h
      rw [formula_predicate_ungrouped, hu]
      rfl
    · cases h
  · cases h

/-- Anything else has `NOT` in front of it. -/
theorem formula_predicate_not (m : Mapping) {c : Condition} (h : c.list? = none) :
    ((not c).predicate m).formula = .not (c.predicate m).formula := by
  rw [predicate, h]
  cases c.isGroup <;> rfl

variable {m : Mapping} {c : Condition}

theorem identified_not_grouped (hi : c.Identified) (n : Nat) : (not (c.grouped n)).Identified := by
  rw [Identified, leaves, leaves_grouped]
  exact hi

theorem Identified.field {l : Comparison} (hi : c.Identified) (h : c.list? = some l) :
    IsIdentifier l.field := by
  refine hi (.comparison l) ?_
  rw [(list?_eq_some h).2.1]
  exact List.mem_cons_self

/-- **The negation of a condition has the opposite truth value**, through any number of groups,
except that the negation of a list comparison can be lost: then both are false. -/
theorem not_means (hm : m.Usable IsLiteral) (hi : c.Identified) (n : Nat) :
    ∃ f g : Formula (List Item),
      read? (c.predicate m).text = some f ∧
      read? ((not (c.grouped n)).predicate m).text = some g ∧
      ((∀ l, c.list? = some l → ¬ l.Unnegated m) →
        ∀ v : List Item → Truth, g.eval v = (f.eval v).not) ∧
      ∀ l, c.list? = some l → l.Unnegated m →
        ∀ v : List Item → Truth, f.eval v = .false ∧ g.eval v = .false := by
  refine ⟨(c.predicate m).formula, ((not (c.grouped n)).predicate m).formula,
    Predicate.read?_text (predicate_layered m c).1 (predicate_clean hm hi),
    Predicate.read?_text (predicate_layered m _).1
      (predicate_clean hm (identified_not_grouped hi n)), fun hlost v => ?_, fun l hl hlost v => ?_⟩
  · cases hl : c.list? with
    | none =>
      rw [formula_predicate_not m (by rw [list?_grouped, hl]), formula_predicate_grouped]
      rfl
    | some l =>
      have hop := (list?_eq_some hl).2.2
      rw [predicate, list?_grouped, hl, formula_predicate_list m hl]
      dsimp only
      rw [Comparison.formula_plan_negated hm (hi.field hl) hop (hlost l hl)]
      rfl
  · have hnever : Predicate.never.formula.eval v = .false := rfl
    rw [predicate, list?_grouped, hl, formula_predicate_list m hl]
    dsimp only
    rw [Comparison.predicate_of_unnegated hlost, Comparison.predicate_of_unnegated hlost]
    exact ⟨hnever, hnever⟩

theorem herdKinds_not_means :
    ∃ f g : Formula (List Item),
      read? ((leaf (.comparison ⟨"herd.kind", .isIn, .single (.string "goat"), {}⟩)).predicate
        herdMapping).text = some f ∧
      read? ((not (group (group (leaf (.comparison
        ⟨"herd.kind", .isIn, .single (.string "goat"), {}⟩))))).predicate herdMapping).text =
          some g ∧
      ∀ v : List Item → Truth, g.eval v = (f.eval v).not := by
  obtain ⟨f, g, hf, hg, hnot, -⟩ := not_means (m := herdMapping)
    (c := leaf (.comparison ⟨"herd.kind", .isIn, .single (.string "goat"), {}⟩))
    herdMapping_usable (by decide +kernel) 2
  refine ⟨f, g, hf, hg, hnot fun l hl hlost => ?_⟩
  obtain rfl := Option.some.inj hl
  exact hlost.2

/-- The age is a number of a list that is no list: neither that nor its negation holds. -/
theorem ageInNumber_unnegated :
    let c := leaf (.comparison ⟨"age", .isIn, .single (.int 5), {}⟩)
    c.Identified ∧
      (read? (c.predicate herdMapping).text).map (Formula.eval fun _ => .true) = some .false ∧
      (read? ((not c).predicate herdMapping).text).map (Formula.eval fun _ => .true) =
        some .false := by
  refine ⟨?_, ?_, ?_⟩ <;> decide +kernel

end Condition

end Eligibility
