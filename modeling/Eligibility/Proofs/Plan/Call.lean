import Eligibility.Plan.Leaf
import Eligibility.Proofs.Sql.Scope

/-!
# Plans of calls

What a call is compiled to, case by case.

* `columns_aggregate?`: an aggregate is of the column of its target;
* `AggregatePlan`, **`aggregatePlan_planAggregate`**: the plans of aggregations;
* `CheckPlan`, **`checkPlan_planCheck`**: the plans of grid checks;
* `predicate_plan`: a call is compiled to one of these, or never holds.
-/

namespace Eligibility.FunctionCall

open Sql

theorem columns_aggregate? {g : GridFunction} {column : Option Column} {a : Aggregate}
    (h : aggregate? g column = some a) : a.columns = column.toList := by
  unfold aggregate? at h
  split at h <;> cases h <;> rfl

section Plans

variable (m : Mapping) (f : FunctionCall) (t : CallTarget)

/-- What the plan of an aggregation may be. -/
inductive AggregatePlan : LeafPlan → Prop
  | noColumn : AggregatePlan ⟨.never, [], [.aggregatedGrid f.function f.target]⟩
  | compared {a : Aggregate} (ha : aggregate? f.function t.column = some a) {op : Operator}
      {v : Value} (hcomparison : f.comparison = some (op, v)) (r : Relation) :
      AggregatePlan ⟨.compare (.aggregate a (m.rows t.table)) r (m.literal v), m.literalIds [v], []⟩
  | notComparable (op : Operator) :
      AggregatePlan ⟨.never, [], [.resultNotComparable op f.function]⟩
  | aboveZero {a : Aggregate} (ha : aggregate? f.function t.column = some a) :
      AggregatePlan ⟨.compare (.aggregate a (m.rows t.table)) .gt (.int 0), [], []⟩
  | there {a : Aggregate} (ha : aggregate? f.function t.column = some a) :
      AggregatePlan ⟨.isNotNull (.aggregate a (m.rows t.table)), [], []⟩

theorem aggregatePlan_planAggregate : AggregatePlan m f t (f.planAggregate m t) := by
  unfold planAggregate
  cases ha : aggregate? f.function t.column with
  | none => exact .noColumn
  | some a =>
    dsimp only
    split
    · rename_i op v hcomparison
      split
      · exact .compared ha hcomparison _
      · exact .notComparable op
    · split
      · exact .aboveZero ha
      · exact .aboveZero ha
      · exact .there ha

/-- What the plan of a grid check may be. -/
inductive CheckPlan : LeafPlan → Prop
  | nothing : CheckPlan ⟨.always, [], [.nothingToHave f.target]⟩
  | row (negated : Bool) : CheckPlan ⟨.negatedIf negated (.rowExists (m.rows t.table)), [], []⟩
  | filled {c : Column} (hc : t.column = some c) (negated : Bool) :
      CheckPlan
        ⟨.negatedIf negated (.rowExistsWhere (m.rows t.table) (.isNotNull (.column c))), [], []⟩
  | noColumn : CheckPlan ⟨.never, [], [.valuesOfGrid f.function f.target]⟩
  | has {v : Value} {c : Column} (hv : f.values = [v]) (hc : t.column = some c) :
      CheckPlan ⟨rowHas m t.table c v, m.literalIds [v], []⟩
  | hasAll {vs : List Value} {c : Column} (hvs : f.values = vs) (hc : t.column = some c) :
      CheckPlan ⟨.paren (.all (vs.map (rowHas m t.table c))), m.literalIds vs, []⟩
  | oneOf {vs : List Value} {c : Column} (hvs : f.values = vs) (hc : t.column = some c)
      (negated : Bool) :
      CheckPlan ⟨.negatedIf negated (.rowExistsWhere (m.rows t.table)
        (.isIn (.column c) (vs.map m.literal))), m.literalIds vs, []⟩

theorem checkPlan_planCheck : CheckPlan m f t (f.planCheck m t) := by
  unfold planCheck
  dsimp only
  split
  · split
    · exact .nothing
    · split
      · exact .row _
      · rename_i c hc
        exact .filled hc _
  · exact .noColumn
  · rename_i v vs c hvs hc
    split
    · split
      · rename_i hnil
        subst hnil
        exact .has hvs hc
      · exact .hasAll hvs hc
    · exact .oneOf hvs hc _

end Plans

/-- What holds of every plan of an aggregation or a check of the target holds of that of a call. -/
theorem predicate_plan {P : Predicate → Prop} {m : Mapping} {f : FunctionCall} (hnever : P .never)
    (haggregate : ∀ t, f.target? m = some t → P (f.planAggregate m t).predicate)
    (hcheck : ∀ t, f.target? m = some t → P (f.planCheck m t).predicate) :
    P (f.plan m).predicate := by
  unfold plan
  cases ht : f.target? m with
  | none => exact hnever
  | some t =>
    dsimp only
    split
    · exact haggregate t ht
    · exact hcheck t ht

end Eligibility.FunctionCall
