import Eligibility.Proofs.Plan.Leaf

/-!
# Leaves as operands

The predicate of a leaf may stand anywhere: what joins operands in it is in parentheses.

* `Predicate.IsOperand`, **`Leaf.plan_operand`**;
* `Leaf.meaning`: what the predicate of a leaf reads as;
* **`Comparison.clauses_negated`**: the negated form of a list comparison reads as the negation of
  its other form.
-/

namespace Eligibility

open Sql

namespace Sql.Predicate

/-- The predicate is a layered operand. -/
def IsOperand (p : Predicate) : Prop := p.Layered ∧ p.level = 0

/-- The predicate is layered operands joined by `AND`. -/
def IsConjunction (p : Predicate) : Prop := p.Layered ∧ p.level ≤ 1

theorem IsOperand.isConjunction {p : Predicate} (h : p.IsOperand) : p.IsConjunction :=
  ⟨h.1, by rw [h.2]; exact Nat.zero_le 1⟩

theorem IsOperand.negatedIf {p : Predicate} (h : p.IsOperand) (negated : Bool) :
    (negatedIf negated p).IsOperand := by
  cases negated
  · exact h
  · exact ⟨h, rfl⟩

theorem isConjunction_all {ps : List Predicate} (h : ∀ p ∈ ps, p.IsConjunction) :
    (all ps).IsConjunction :=
  all_of_and ⟨trivial, Nat.zero_le 1⟩
    (fun _ _ hp hq => ⟨⟨hp.1, hq.1, hp.2, hq.2⟩, Nat.le_refl 1⟩) h

theorem clauses_of_level {p : Predicate} (h : p.level = 0) :
    p.clauses = [[.clauses p.clauses]] := by
  cases p with
  | and p q => cases h
  | or p q => cases h
  | _ => rfl

end Sql.Predicate

/-! ## Leaves -/

theorem test_operand (m : Mapping) (test : Test) (t : Term) (nullOnly negated : Bool) :
    (test.predicate m t nullOnly negated).IsOperand := by
  cases test with
  | empty => cases nullOnly <;> exact ⟨by simp [Test.predicate, Predicate.Layered], rfl⟩
  | filled =>
    cases nullOnly <;> exact ⟨by simp [Test.predicate, Predicate.Layered, Predicate.level], rfl⟩
  | between low high => exact ⟨trivial, rfl⟩
  | oneOf vs => cases negated <;> exact ⟨trivial, rfl⟩
  | like before after s => exact ⟨trivial, rfl⟩
  | relation r v => exact ⟨trivial, rfl⟩

namespace Comparison

theorem planOn_operand (m : Mapping) (c : Comparison) (t : Term) (nullOnly negated : Bool) :
    (c.planOn m t nullOnly negated).predicate.IsOperand := by
  rw [planOn]
  split
  · exact test_operand m _ t nullOnly negated
  · exact ⟨trivial, rfl⟩

theorem planOnGrid_operand (m : Mapping) (c : Comparison) (table column : String)
    (nullOnly negated : Bool) :
    (c.planOnGrid m table column nullOnly negated).predicate.IsOperand :=
  Predicate.IsOperand.negatedIf (p := .rowExistsWhere _ _) ⟨trivial, rfl⟩ negated

theorem plan_operand (m : Mapping) (c : Comparison) (negated : Bool) :
    (c.plan m negated).predicate.IsOperand := by
  change (c.planRest m negated).predicate.IsOperand
  rw [planRest]
  split
  · exact planOn_operand m c _ _ _
  · exact planOnGrid_operand m c _ _ _ _
  · cases negated <;> exact ⟨by simp [Predicate.Layered, Predicate.level], rfl⟩
  · dsimp only
    split
    · exact planOnGrid_operand m c _ _ _ _
    · exact planOn_operand m c _ _ _

end Comparison

namespace FunctionCall

theorem planAggregate_operand (m : Mapping) (f : FunctionCall) (t : CallTarget) :
    (f.planAggregate m t).predicate.IsOperand := by
  have hplan := aggregatePlan_planAggregate m f t
  generalize f.planAggregate m t = p at hplan
  cases hplan <;> exact ⟨trivial, rfl⟩

theorem planCheck_operand (m : Mapping) (f : FunctionCall) (t : CallTarget) :
    (f.planCheck m t).predicate.IsOperand := by
  have hplan := checkPlan_planCheck m f t
  generalize f.planCheck m t = p at hplan
  cases hplan with
  | nothing | noColumn | has => exact ⟨trivial, rfl⟩
  | row negated => exact Predicate.IsOperand.negatedIf (p := .rowExists _) ⟨trivial, rfl⟩ negated
  | filled _ negated | oneOf _ _ negated =>
    exact Predicate.IsOperand.negatedIf (p := .rowExistsWhere _ _) ⟨trivial, rfl⟩ negated
  | hasAll =>
    refine ⟨(Predicate.isConjunction_all ?_).1, rfl⟩
    exact List.forall_mem_map.2 fun v _ => ⟨trivial, Nat.zero_le 1⟩

end FunctionCall

theorem Leaf.plan_operand (m : Mapping) (l : Leaf) (negated : Bool) :
    (l.plan m negated).predicate.IsOperand := by
  cases l with
  | comparison c => exact c.plan_operand m negated
  | call f =>
    exact FunctionCall.predicate_plan ⟨trivial, rfl⟩ (fun t _ => f.planAggregate_operand m t)
      fun t _ => f.planCheck_operand m t

/-- What the predicate of a leaf reads as. -/
def Leaf.meaning (m : Mapping) (l : Leaf) : Formula (List Item) :=
  .clauses (l.plan m false).predicate.clauses

theorem Leaf.clauses_plan (m : Mapping) (l : Leaf) :
    (l.plan m false).predicate.clauses = [[l.meaning m]] :=
  Predicate.clauses_of_level (l.plan_operand m false).2

/-! ## Negated lists -/

namespace Comparison

theorem clauses_planOn_negated (m : Mapping) {c : Comparison} {vs : List Value}
    (hc : c.test? = some (.oneOf vs)) {t : Term} (ht : t.Clean IsLiteral) (nullOnly : Bool) :
    (c.planOn m t nullOnly true).predicate.clauses =
      [[.not (.clauses (c.planOn m t nullOnly false).predicate.clauses)]] := by
  simp only [planOn, hc, Test.predicate, if_true, Bool.false_eq_true, if_false]
  have := elementary_notIn (fun i hi => (ht.starts i hi).isWord.2.2)
    (commaItems ((vs.map m.literal).map Term.items))
  exact congrArg (fun f => [[f]]) this

/-- The negated form of a list comparison reads as the negation of its other form. -/
theorem clauses_negated {m : Mapping} (hm : m.Usable IsLiteral) {c : Comparison}
    (hid : IsIdentifier c.field) {vs : List Value} (hc : c.test? = some (.oneOf vs)) :
    (c.plan m true).predicate.clauses = [[.not (Leaf.meaning m (.comparison c))]] := by
  change (c.planRest m true).predicate.clauses =
    [[.not (.clauses (c.planRest m false).predicate.clauses)]]
  simp only [planRest]
  split
  · rename_i column d hr
    exact clauses_planOn_negated m hc (t := .column _) (hm.baseColumn_clean (hm.checked.base hr)) _
  · rfl
  · rfl
  · split
    · rfl
    · exact clauses_planOn_negated m hc (t := .name _) hid _

end Comparison

end Eligibility
