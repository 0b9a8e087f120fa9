import Eligibility.Plan.Rule
import Eligibility.Proofs.Plan.Call
import Eligibility.Proofs.Plan.Subject

/-!
# What leaves and rules are warned of

A warning speaks of the leaf or the rule that it is placed at, and is of one of few kinds.

* `Comparison.FieldObjection`: what the field of a comparison is warned for;
* `FunctionCall.Objection`: what a call is warned for;
* **`Leaf.objection_of_mem_warnings`**: a warning of a leaf is one of these, or about its operand;
* **`Rule.objection_of_mem_warnings`**: a warning of a rule is one of a leaf, or about what the rule
  lacks.
-/

namespace Eligibility

variable {m : Mapping} {w : PlanWarning}

/-! ## Comparisons -/

namespace Comparison

/-- What the field of a comparison may be warned for. -/
inductive FieldObjection (m : Mapping) (c : Comparison) : PlanWarning → Prop
  | notApplicable (d : FieldDefinition) :
      FieldObjection m c (.operatorNotApplicable c.op d.id d.fieldType)
  | comparedGrid : FieldObjection m c (.comparedGrid c.field)
  | unknown (h : m.resolve? c.field = none) : FieldObjection m c (.unknownField c.field)

variable {c : Comparison}

theorem fieldObjection_of_operatorWarnings {d : FieldDefinition} (h : w ∈ c.operatorWarnings d) :
    c.FieldObjection m w := by
  unfold operatorWarnings at h
  split at h
  · cases h
  · rw [List.mem_singleton.1 h]
    exact .notApplicable d

theorem fieldObjection_of_fieldWarnings (h : w ∈ c.fieldWarnings m) : c.FieldObjection m w := by
  unfold fieldWarnings at h
  split at h
  · exact fieldObjection_of_operatorWarnings h
  · exact fieldObjection_of_operatorWarnings h
  · rw [List.mem_singleton.1 h]
    exact .comparedGrid
  · rename_i hr
    rw [List.mem_singleton.1 h]
    exact .unknown hr

end Comparison

/-! ## Calls -/

namespace FunctionCall

/-- What a call may be warned for: its target, or what it asks of the target. -/
inductive Objection (m : Mapping) (f : FunctionCall) : PlanWarning → Prop
  | notPermitted (d : FieldDefinition) : Objection m f (.functionNotPermitted f.function d.id)
  | notAGrid : Objection m f (.notAGrid f.function f.target)
  | unknown (h : m.resolve? f.target = none) : Objection m f (.unknownField f.target)
  | aggregatedGrid : Objection m f (.aggregatedGrid f.function f.target)
  | resultNotComparable (op : Operator) : Objection m f (.resultNotComparable op f.function)
  | nothingToHave : Objection m f (.nothingToHave f.target)
  | valuesOfGrid : Objection m f (.valuesOfGrid f.function f.target)

variable {f : FunctionCall} {t : CallTarget}

theorem objection_of_targetWarnings (h : w ∈ f.targetWarnings m) : f.Objection m w := by
  have hpermitted {d : FieldDefinition}
      (h : w ∈ if d.allowsFunction f.function then []
        else [PlanWarning.functionNotPermitted f.function d.id]) : f.Objection m w := by
    split at h
    · cases h
    · rw [List.mem_singleton.1 h]
      exact .notPermitted d
  unfold targetWarnings at h
  split at h
  · exact hpermitted h
  · exact hpermitted h
  · rw [List.mem_singleton.1 h]
    exact .notAGrid
  · rename_i hr
    rw [List.mem_singleton.1 h]
    exact .unknown hr

theorem objection_of_planAggregate (h : w ∈ (f.planAggregate m t).warnings) :
    f.Objection m w := by
  have hplan := aggregatePlan_planAggregate m f t
  generalize f.planAggregate m t = p at h hplan
  cases hplan with
  | noColumn =>
    rw [List.mem_singleton.1 h]
    exact .aggregatedGrid
  | notComparable op =>
    rw [List.mem_singleton.1 h]
    exact .resultNotComparable op
  | compared | aboveZero | there => cases h

theorem objection_of_planCheck (h : w ∈ (f.planCheck m t).warnings) : f.Objection m w := by
  have hplan := checkPlan_planCheck m f t
  generalize f.planCheck m t = p at h hplan
  cases hplan with
  | nothing =>
    rw [List.mem_singleton.1 h]
    exact .nothingToHave
  | noColumn =>
    rw [List.mem_singleton.1 h]
    exact .valuesOfGrid
  | row | filled | has | hasAll | oneOf => cases h

theorem objection_of_mem_warnings (h : w ∈ (f.plan m).warnings) : f.Objection m w := by
  unfold plan at h
  rcases List.mem_append.1 h with h | h
  · exact objection_of_targetWarnings h
  · split at h
    · cases h
    · split at h
      · exact objection_of_planAggregate h
      · exact objection_of_planCheck h

end FunctionCall

/-! ## Leaves and rules -/

/-- What a leaf may be warned for. -/
inductive Leaf.Objection (m : Mapping) : Leaf → PlanWarning → Prop
  | field {c : Comparison} {w : PlanWarning} (h : c.FieldObjection m w) :
      Objection m (.comparison c) w
  | operand (c : Comparison) : Objection m (.comparison c) (.malformedOperand c.op c.field)
  | call {f : FunctionCall} {w : PlanWarning} (h : f.Objection m w) : Objection m (.call f) w

theorem Leaf.objection_of_mem_warnings {l : Leaf} {negated : Bool}
    (h : w ∈ (l.plan m negated).warnings) : l.Objection m w := by
  cases l with
  | comparison c =>
    rcases Comparison.mem_warnings_plan h with h | rfl
    · exact .field (Comparison.fieldObjection_of_fieldWarnings h)
    · exact .operand c
  | call f => exact .call (FunctionCall.objection_of_mem_warnings h)

/-- What is reported as unknown is stored nowhere. -/
theorem Leaf.Objection.resolve?_of_unknownField {l : Leaf} {id : String}
    (h : l.Objection m (.unknownField id)) : m.resolve? id = none := by
  cases h with
  | field h =>
    cases h with
    | unknown hr => exact hr
  | call h =>
    cases h with
    | unknown hr => exact hr

/-- What a rule may be warned for, and where. -/
inductive Rule.Objection (m : Mapping) (r : Rule) : Position → PlanWarning → Prop
  | leaf {c : Condition} (hc : r.condition = some c) {l : Leaf} (hl : l ∈ c.leaves)
      {w : PlanWarning} (h : l.Objection m w) : Objection m r l.position w
  | noCondition : Objection m r r.start (.noCondition r.name)
  | noScore : Objection m r r.start (.noScore r.name)

theorem Rule.objection_of_mem_warnings {r : Rule} {p : Position}
    (h : (p, w) ∈ (r.plan m).warnings) : r.Objection m p w := by
  have hscore (h : (p, w) ∈ r.scoreWarnings) : r.Objection m p w := by
    unfold scoreWarnings at h
    split at h
    · cases List.mem_singleton.1 h
      exact .noScore
    · cases h
  unfold plan at h
  split at h
  · rename_i c hc
    rcases List.mem_append.1 h with h | h
    · obtain ⟨l, hl, h⟩ := List.mem_flatMap.1 h
      obtain ⟨v, hv, heq⟩ := List.mem_map.1 h
      cases heq
      exact .leaf hc hl (Leaf.objection_of_mem_warnings hv)
    · exact hscore h
  · rcases List.mem_cons.1 h with h | h
    · cases h
      exact .noCondition
    · exact hscore h

end Eligibility
