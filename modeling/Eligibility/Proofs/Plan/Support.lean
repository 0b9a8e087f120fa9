import Eligibility.Proofs.Plan.Filter

/-!
# Leaves that a mapping supports

A leaf compiles without a warning exactly if the mapping has what it names and allows what it does.

* `Comparison.Supported`, **`Comparison.warnings_plan_eq_nil`**;
* `FunctionCall.Supported`, **`FunctionCall.warnings_plan_eq_nil`**;
* `Leaf.Supported`, `Leaf.warnings_plan_eq_nil`: leaves with operands of the right shapes;
* `Rule.warnings_plan_eq_nil`: a rule without warnings has a condition of leaves without warnings,
  and a score if it gives one.
-/

namespace Eligibility

/-! ## Comparisons -/

namespace Comparison

variable {m : Mapping} {c : Comparison}

/-- The field is stored in a column, and it allows the operator. -/
def Supported (m : Mapping) (c : Comparison) : Prop :=
  ∃ d : FieldDefinition, ((∃ column, m.resolve? c.field = some (.base column d)) ∨
    ∃ table column, m.resolve? c.field = some (.gridChild table column d)) ∧
      d.allowsOperator c.op = true

theorem operatorWarnings_eq_nil {d : FieldDefinition} :
    c.operatorWarnings d = [] ↔ d.allowsOperator c.op = true := by
  unfold operatorWarnings
  cases d.allowsOperator c.op <;> simp

theorem fieldWarnings_eq_nil : c.fieldWarnings m = [] ↔ c.Supported m := by
  unfold fieldWarnings Supported
  rcases hr : m.resolve? c.field with _ | (_ | _ | _)
  · simp
  · simp [operatorWarnings_eq_nil]
  · simp
  · simp [operatorWarnings_eq_nil]

theorem Supported.not_grid (h : c.Supported m) :
    ∀ table d, m.resolve? c.field ≠ some (.grid table d) := by
  intro table d hr
  obtain ⟨e, ⟨column, hc⟩ | ⟨table', column, hc⟩, -⟩ := h
  · cases hr.symm.trans hc
  · cases hr.symm.trans hc

/-- **A comparison has no warnings exactly if its field is supported** and its operand has the shape
that the operator needs. -/
theorem warnings_plan_eq_nil (negated : Bool) :
    (c.plan m negated).warnings = [] ↔ c.Supported m ∧ c.test?.isSome = true := by
  cases hs : c.subject? m with
  | none =>
    obtain ⟨table, d, hgrid⟩ := subject?_eq_none.1 hs
    have hwarned : (c.plan m negated).warnings = [.comparedGrid c.field] := by
      rw [plan, planRest, hgrid]
    rw [hwarned]
    exact iff_of_false (List.cons_ne_nil _ _) fun h => h.1.not_grid table d hgrid
  | some s =>
    rw [plan_of_subject hs, List.append_eq_nil_iff, fieldWarnings_eq_nil, Subject.filter,
      warnings_planOn]
    cases c.test?.isSome <;> simp

end Comparison

/-! ## Functions -/

theorem Operator.isSome_relation? {op : Operator} :
    op.relation?.isSome = true ↔ op ∈ [eq, neq, gt, gte, lt, lte] := by
  cases op <;> decide

namespace FunctionCall

variable {m : Mapping} {f : FunctionCall} {t : CallTarget}

/-- The call is about the values of a column. -/
def OnColumn (f : FunctionCall) : Prop :=
  f.function ∈ [.sum, .avg, .min, .max] ∨ f.function.isGridCheck = true ∧ f.values ≠ []

/-- What a mapping has to offer for a call, and what the call has to have by itself. -/
structure Supported (m : Mapping) (f : FunctionCall) : Prop where
  /-- The target is a grid or a grid child, and it allows the function. -/
  target : ∃ d : FieldDefinition, ((∃ table, m.resolve? f.target = some (.grid table d)) ∨
    ∃ table column, m.resolve? f.target = some (.gridChild table column d)) ∧
      d.allowsFunction f.function = true
  column : f.OnColumn → ∃ table column d, m.resolve? f.target = some (.gridChild table column d)
  values : f.function = .hasAll → f.values ≠ []
  operator : f.function.isAggregation = true → ∀ op v, f.comparison = some (op, v) →
    op ∈ [.eq, .neq, .gt, .gte, .lt, .lte]

theorem isSome_aggregate? {g : GridFunction} (hg : g.isAggregation = true)
    (column : Option Sql.Column) : (aggregate? g column).isSome = true ↔
      (g ∈ [.sum, .avg, .min, .max] → column.isSome = true) := by
  cases g with
  | count => cases column <;> simp [aggregate?]
  | sum | avg | min | max => cases column <;> simp [aggregate?]
  | hasAny | hasAll | hasNone => cases hg

theorem onColumn_of_aggregation (hf : f.function.isAggregation = true) :
    f.OnColumn ↔ f.function ∈ [.sum, .avg, .min, .max] := by
  rw [OnColumn, GridFunction.isGridCheck, hf, Bool.not_true]
  exact or_iff_left fun h => Bool.false_ne_true h.1

theorem onColumn_of_check (hf : f.function.isAggregation = false) :
    f.OnColumn ↔ f.values ≠ [] := by
  rw [OnColumn, GridFunction.isGridCheck, hf, Bool.not_false]
  refine ⟨fun h => h.elim (fun hmem => ?_) (·.2), fun h => .inr ⟨rfl, h⟩⟩
  simp only [List.mem_cons, List.not_mem_nil, or_false] at hmem
  rcases hmem with h | h | h | h <;> rw [h] at hf <;> cases hf

theorem warnings_planAggregate_eq_nil (hf : f.function.isAggregation = true) :
    (f.planAggregate m t).warnings = [] ↔ (f.OnColumn → t.column.isSome = true) ∧
      ∀ op v, f.comparison = some (op, v) → op ∈ [.eq, .neq, .gt, .gte, .lt, .lte] := by
  rw [onColumn_of_aggregation hf, ← isSome_aggregate? hf, planAggregate]
  cases aggregate? f.function t.column with
  | none => simp
  | some a =>
    cases hc : f.comparison with
    | none =>
      refine iff_of_true ?_ ⟨rfl, fun _ _ h => (Option.some_ne_none _ h.symm).elim⟩
      dsimp only
      split <;> rfl
    | some compared =>
      obtain ⟨op, v⟩ := compared
      have hop : (∀ op' v', some (op, v) = some (op', v') →
          op' ∈ [Operator.eq, .neq, .gt, .gte, .lt, .lte]) ↔ op.relation?.isSome = true := by
        rw [Operator.isSome_relation?]
        exact ⟨fun h => h op v rfl, fun h _ _ heq => (Prod.mk.inj (Option.some.inj heq)).1 ▸ h⟩
      rw [hop]
      dsimp only
      cases op.relation? <;> simp

theorem warnings_planCheck_eq_nil (hf : f.function.isAggregation = false) :
    (f.planCheck m t).warnings = [] ↔ (f.OnColumn → t.column.isSome = true) ∧
      (f.function = .hasAll → f.values ≠ []) := by
  rw [onColumn_of_check hf, planCheck]
  cases f.values with
  | nil =>
    by_cases hall : f.function = .hasAll
    · simp [hall]
    · cases t.column <;> simp [hall]
  | cons v vs =>
    cases t.column with
    | none => simp
    | some c => by_cases hall : f.function = .hasAll <;> simp [hall]

theorem targetWarnings_eq_nil : f.targetWarnings m = [] ↔ ∃ d : FieldDefinition,
    ((∃ table, m.resolve? f.target = some (.grid table d)) ∨
      ∃ table column, m.resolve? f.target = some (.gridChild table column d)) ∧
        d.allowsFunction f.function = true := by
  unfold targetWarnings
  rcases hr : m.resolve? f.target with _ | (_ | _ | _) <;> simp

/-- The warnings of a call are about its target, the column in it, or the call by itself. -/
theorem warnings_plan_of_target (ht : f.target? m = some t) :
    (f.plan m).warnings = [] ↔ f.targetWarnings m = [] ∧
      (f.OnColumn → t.column.isSome = true) ∧ (f.function = .hasAll → f.values ≠ []) ∧
      (f.function.isAggregation = true → ∀ op v, f.comparison = some (op, v) →
        op ∈ [.eq, .neq, .gt, .gte, .lt, .lte]) := by
  rw [plan, ht, List.append_eq_nil_iff]
  cases hf : f.function.isAggregation with
  | true =>
    have hall : f.function ≠ .hasAll := fun h => by rw [h] at hf; cases hf
    simp [warnings_planAggregate_eq_nil hf, hall]
  | false => simp [warnings_planCheck_eq_nil hf]

/-- **A call has no warnings exactly if it is supported.** -/
theorem warnings_plan_eq_nil : (f.plan m).warnings = [] ↔ f.Supported m := by
  by_cases htarget : f.targetWarnings m = []
  · obtain ⟨d, ⟨table, hr⟩ | ⟨table, column, hr⟩, hallows⟩ := targetWarnings_eq_nil.1 htarget
    · have ht : f.target? m = some ⟨table, none⟩ := by rw [target?, hr]
      rw [warnings_plan_of_target ht]
      constructor
      · rintro ⟨-, hcolumn, hvalues, hop⟩
        exact ⟨⟨d, .inl ⟨table, hr⟩, hallows⟩, fun h => absurd (hcolumn h) Bool.false_ne_true,
          hvalues, hop⟩
      · intro h
        refine ⟨htarget, fun hcolumn => ?_, h.values, h.operator⟩
        obtain ⟨table', column, d', hc⟩ := h.column hcolumn
        cases hr.symm.trans hc
    · have ht : f.target? m = some ⟨table, some (m.gridColumn column)⟩ := by rw [target?, hr]
      rw [warnings_plan_of_target ht]
      constructor
      · rintro ⟨-, -, hvalues, hop⟩
        exact ⟨⟨d, .inr ⟨table, column, hr⟩, hallows⟩, fun _ => ⟨table, column, d, hr⟩, hvalues,
          hop⟩
      · intro h
        exact ⟨htarget, fun _ => rfl, h.values, h.operator⟩
  · exact iff_of_false (fun h => htarget (List.append_eq_nil_iff.1 h).1)
      fun h => htarget (targetWarnings_eq_nil.2 h.target)

end FunctionCall

/-! ## Leaves and rules -/

/-- The mapping supports the leaf. -/
def Leaf.Supported (m : Mapping) : Leaf → Prop
  | comparison c => c.Supported m
  | call f => f.Supported m

/-- A leaf with an operand of the right shape has no warnings exactly if it is supported. -/
theorem Leaf.warnings_plan_eq_nil {m : Mapping} {l : Leaf} (h : l.Shaped) :
    (l.plan m false).warnings = [] ↔ l.Supported m := by
  cases l with
  | comparison c => exact (Comparison.warnings_plan_eq_nil false).trans (and_iff_left h)
  | call f => exact FunctionCall.warnings_plan_eq_nil

/-- **A rule has no warnings exactly if** it has a condition, a score in case it gives one, and
leaves without warnings. -/
theorem Rule.warnings_plan_eq_nil {m : Mapping} {r : Rule} :
    (r.plan m).warnings = [] ↔ r.condition.isSome = true ∧
      (r.ruleType = .bonus → r.score.isSome = true) ∧
      ∀ l ∈ r.leaves, (l.plan m false).warnings = [] := by
  have hscore : r.scoreWarnings = [] ↔ (r.ruleType = .bonus → r.score.isSome = true) := by
    unfold scoreWarnings
    cases r.score <;> simp
  unfold plan leaves
  cases r.condition with
  | none => simp
  | some c => simp [hscore, Condition.warnings, and_comm]

end Eligibility
