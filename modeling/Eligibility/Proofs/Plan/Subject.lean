import Eligibility.Plan.Leaf

/-!
# Subjects of comparisons

A comparison tests a column of the base row, a column of the rows of a grid, or an unknown name. The
test stands alone, or inside a search for rows.

* `Subject`, `Comparison.subject?`: what a comparison tests;
* `Comparison.unknownChild?_eq_some`: where the unknown child of a known grid is looked for;
* `Comparison.fieldWarnings`: what its field is warned for;
* **`Comparison.plan_of_subject`**: the plan of a comparison is that of the test.
-/

namespace Eligibility

open Sql

/-- What a comparison tests: a column of the base row, or one of the rows of a table. -/
structure Subject where
  table : Option String
  term : Term
  nullOnly : Bool

namespace Subject

/-- The test of the subject. Only a subject of the base row has a negated one. -/
def filter (m : Mapping) (s : Subject) (c : Comparison) (negated : Bool) : LeafPlan :=
  c.planOn m s.term s.nullOnly (negated && s.table.isNone)

/-- The predicate that has a filter of the subject in it. -/
def around (m : Mapping) (s : Subject) (negated : Bool) (filter : Predicate) : Predicate :=
  match s.table with
  | none => filter
  | some table => .negatedIf negated (.rowExistsWhere (m.rows table) filter)

end Subject

namespace Comparison

variable (m : Mapping) (c : Comparison)

/-- The subject of a comparison; a whole grid is none. -/
def subject? : Option Subject :=
  match m.resolve? c.field with
  | some (.base column d) =>
    some ⟨none, .column ⟨m.schema.baseAlias, column⟩, d.fieldType.nullMeansEmpty⟩
  | some (.gridChild table column d) =>
    some ⟨some table, .column (m.gridColumn column), d.fieldType.nullMeansEmpty⟩
  | some (.grid _ _) => none
  | none =>
    match c.unknownChild? m with
    | some (table, column) => some ⟨some table, .column (m.gridColumn column), false⟩
    | none => some ⟨none, .name c.field, false⟩

/-- What the field of a comparison is warned for. -/
def fieldWarnings : List PlanWarning :=
  match m.resolve? c.field with
  | some (.base _ d) | some (.gridChild _ _ d) => c.operatorWarnings d
  | some (.grid _ _) => [.comparedGrid c.field]
  | none => [.unknownField c.field]

variable {m c}

/-- An unknown child is a child of a known grid, in the column by convention. -/
theorem unknownChild?_eq_some {table column : String} :
    c.unknownChild? m = some (table, column) ↔ ∃ grid child,
      Text.cut? '.' c.field = some (grid, child) ∧ m.gridTable? grid = some table ∧
        column = m.schema.columnPrefix ++ child := by
  constructor
  · intro h
    obtain ⟨⟨grid, child⟩, hcut, h⟩ := Option.bind_eq_some_iff.1 h
    obtain ⟨table', htable, h⟩ := Option.bind_eq_some_iff.1 h
    rw [Mapping.conventionalChild?, hcut] at h
    cases h
    exact ⟨grid, child, hcut, htable, rfl⟩
  · rintro ⟨grid, child, hcut, htable, rfl⟩
    rw [unknownChild?, Mapping.conventionalChild?, hcut]
    simp only [Option.bind_some, htable, Option.map_some]

theorem subject?_eq_none :
    c.subject? m = none ↔ ∃ table d, m.resolve? c.field = some (.grid table d) := by
  unfold subject?
  rcases m.resolve? c.field with _ | (_ | _ | _)
  · cases c.unknownChild? m <;> simp
  · simp
  · simp
  · simp

theorem exists_subject (h : ∀ table d, m.resolve? c.field ≠ some (.grid table d)) :
    ∃ s, c.subject? m = some s := by
  refine Option.ne_none_iff_exists'.1 fun hnone => ?_
  obtain ⟨table, d, hgrid⟩ := subject?_eq_none.1 hnone
  exact h table d hgrid

theorem warnings_planOn (m : Mapping) (c : Comparison) (t : Term) (nullOnly negated : Bool) :
    (c.planOn m t nullOnly negated).warnings =
      if c.test?.isSome then [] else [.malformedOperand c.op c.field] := by
  unfold planOn
  cases c.test? <;> rfl

/-- **A comparison is the filter of its subject.** -/
theorem plan_of_subject {s : Subject} (h : c.subject? m = some s) (negated : Bool) :
    c.plan m negated =
      ⟨s.around m negated (s.filter m c negated).predicate,
        c.field :: (s.filter m c negated).ids,
        c.fieldWarnings m ++ (s.filter m c negated).warnings⟩ := by
  unfold subject? at h
  unfold plan planRest fieldWarnings
  rcases hr : m.resolve? c.field with _ | (_ | _ | _)
  · rw [hr] at h
    cases hchild : c.unknownChild? m with
    | none =>
      simp only [hchild, Option.some.injEq] at h
      subst h
      simp [Subject.around, Subject.filter]
    | some child =>
      simp only [hchild, Option.some.injEq] at h
      subst h
      simp [Subject.around, Subject.filter, planOnGrid]
  · rw [hr] at h
    cases h
    simp [Subject.around, Subject.filter]
  · rw [hr] at h
    cases h
  · rw [hr] at h
    cases h
    simp [Subject.around, Subject.filter, planOnGrid]

/-- A comparison is warned of for its field, or for its operand. -/
theorem mem_warnings_plan {negated : Bool} {w : PlanWarning}
    (h : w ∈ (c.plan m negated).warnings) :
    w ∈ c.fieldWarnings m ∨ w = .malformedOperand c.op c.field := by
  cases hs : c.subject? m with
  | none =>
    obtain ⟨table, d, hgrid⟩ := subject?_eq_none.1 hs
    rw [plan, planRest, hgrid] at h
    rw [fieldWarnings, hgrid]
    exact .inl h
  | some s =>
    rw [plan_of_subject hs] at h
    rcases List.mem_append.1 h with h | h
    · exact .inl h
    · rw [Subject.filter, warnings_planOn] at h
      split at h
      · cases h
      · exact .inr (List.mem_singleton.1 h)

end Comparison

end Eligibility
