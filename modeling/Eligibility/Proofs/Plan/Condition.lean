import Eligibility.Plan.Rule
import Eligibility.Proofs.Plan.Operand

/-!
# Precedence preserves conditions

The text of the predicate of a condition has no tree. Read back with the precedence of SQL, it is
built of what the leaves read as, and it has the truth value of the condition.

* `Condition.truth`: the three-valued truth of a condition;
* `Condition.formula`: the condition as the text groups it;
* `Condition.clauses_predicate`: the clauses of the predicate are those of the condition, each leaf
  replaced by what it reads as;
* **`Condition.predicate_means`**: the text of the predicate means what the condition means.
-/

namespace Eligibility

open Sql

/-- The operand of a comparison has the shape that its operator needs. -/
def Leaf.Shaped : Leaf → Prop
  | comparison c => c.test?.isSome = true
  | call _ => True

instance (l : Leaf) : Decidable l.Shaped :=
  match l with
  | .comparison c => inferInstanceAs (Decidable (c.test?.isSome = true))
  | .call _ => inferInstanceAs (Decidable True)

namespace Condition

/-- The leaves name identifiers. -/
def Identified (c : Condition) : Prop := ∀ l ∈ c.leaves, IsIdentifier l.id

/-- The operands have the shapes that the operators need. -/
def Shaped (c : Condition) : Prop := ∀ l ∈ c.leaves, l.Shaped

instance (c : Condition) : Decidable c.Identified := inferInstanceAs (Decidable (∀ l ∈ _, _))

instance (c : Condition) : Decidable c.Shaped := inferInstanceAs (Decidable (∀ l ∈ _, _))

/-- The truth value of a condition, given those of its leaves. -/
def truth (v : Leaf → Truth) : Condition → Truth
  | leaf l => v l
  | and a b => (a.truth v).and (b.truth v)
  | or a b => (a.truth v).or (b.truth v)
  | not c => (c.truth v).not
  | group c => c.truth v

/-! ## Clauses of conditions -/

/-- The disjuncts of a condition, each with its conjuncts. -/
def clauses : Condition → List (List (Formula Leaf))
  | leaf l => [[.atom l]]
  | and a b =>
    [(if a.isOr then [.clauses a.clauses] else a.clauses.flatten) ++
      (if b.isOr then [.clauses b.clauses] else b.clauses.flatten)]
  | or a b => a.clauses ++ b.clauses
  | not c => [[.not (.clauses c.clauses)]]
  | group c => [[.clauses c.clauses]]

/-- The condition as its text groups it. -/
def formula (c : Condition) : Formula Leaf := .clauses c.clauses

/-- A condition that is no disjunction has one disjunct. -/
theorem clauses_of_not_isOr {c : Condition} (h : c.isOr = false) :
    c.clauses = [c.clauses.flatten] := by
  cases c with
  | or a b => cases h
  | _ => exact congrArg (fun fs => [fs]) (List.append_nil _).symm

theorem eval_factors (v : Leaf → Truth) (c : Condition) :
    Truth.all ((if c.isOr then [.clauses c.clauses] else c.clauses.flatten).map (Formula.eval v)) =
      c.formula.eval v := by
  split
  · exact Truth.all_singleton _
  · rename_i h
    rw [Bool.not_eq_true] at h
    rw [formula, Formula.eval_clauses, clauses_of_not_isOr h, List.flatten_singleton]
    exact (Truth.any_singleton _).symm

/-- Grouping by precedence does not change the truth value. -/
theorem eval_formula (v : Leaf → Truth) (c : Condition) : c.formula.eval v = c.truth v := by
  induction c with
  | leaf l => rfl
  | and a b iha ihb =>
    change (Formula.clauses [_ ++ _]).eval v = _
    rw [Formula.eval_clauses, List.map_singleton, Truth.any_singleton, List.map_append,
      Truth.all_append, eval_factors, eval_factors, iha, ihb]
    rfl
  | or a b iha ihb =>
    rw [formula, Formula.eval_clauses] at iha ihb ⊢
    rw [clauses, List.map_append, Truth.any_append, iha, ihb]
    rfl
  | not c ih =>
    change (c.formula.eval v).not = _
    rw [ih]; rfl
  | group c ih => exact ih

theorem atoms_factors (c : Condition) :
    (if c.isOr then [.clauses c.clauses] else c.clauses.flatten).flatMap Formula.atoms =
      c.formula.atoms := by
  split
  · exact List.append_nil _
  · rename_i h
    rw [Bool.not_eq_true] at h
    rw [formula, Formula.atoms_clauses, clauses_of_not_isOr h, List.flatten_singleton]
    exact (List.append_nil _).symm

/-- Every leaf is read once, in order. -/
theorem atoms_formula (c : Condition) : c.formula.atoms = c.leaves := by
  induction c with
  | leaf l => rfl
  | and a b iha ihb =>
    change (Formula.clauses [_ ++ _]).atoms = _
    rw [Formula.atoms_clauses, List.flatMap_singleton, List.flatMap_append, atoms_factors,
      atoms_factors, iha, ihb]
    rfl
  | or a b iha ihb =>
    rw [formula, Formula.atoms_clauses] at iha ihb ⊢
    rw [clauses, List.flatMap_append, iha, ihb]
    rfl
  | not c ih => exact ih
  | group c ih => exact ih

/-! ## Negated lists -/

theorem formula_ungrouped (c : Condition) : c.formula = c.ungrouped.formula := by
  induction c with
  | group c ih => exact ih
  | _ => rfl

theorem leaves_ungrouped (c : Condition) : c.leaves = c.ungrouped.leaves := by
  induction c with
  | group c ih => exact ih
  | _ => rfl

theorem list?_eq_some {c : Condition} {l : Comparison} (h : c.list? = some l) :
    c.formula = .atom (.comparison l) ∧ c.leaves = [.comparison l] ∧ l.op = .isIn := by
  rw [list?] at h
  split at h
  · rename_i l' hu
    split at h
    · rename_i hop; cases h
      rw [formula_ungrouped, leaves_ungrouped, hu]
      exact ⟨rfl, rfl, hop⟩
    · cases h
  · cases h

theorem test?_of_isIn {c : Comparison} (hop : c.op = .isIn) (h : c.test?.isSome = true) :
    ∃ vs, c.test? = some (.oneOf vs) := by
  obtain ⟨field, op, operand, position⟩ := c
  cases hop
  cases operand with
  | list vs => exact ⟨vs, rfl⟩
  | none => cases h
  | single v => cases h
  | range low high => cases h

/-! ## Predicates of conditions -/

section Predicate

variable {m : Mapping} {c : Condition}

theorem predicate_clean {lit : String → Prop} (hm : m.Usable lit) (hi : c.Identified) :
    (c.predicate m).Clean lit := by
  have hparen (b : Bool) {p : Predicate} (h : p.Clean lit) : (parenIf b p).Clean lit := by
    cases b <;> exact h
  induction c with
  | leaf l => exact Leaf.plan_clean hm (hi l List.mem_cons_self) false
  | and a b iha ihb =>
    have hi := List.forall_mem_append.1 hi
    exact ⟨hparen _ (iha hi.1), hparen _ (ihb hi.2)⟩
  | or a b iha ihb =>
    have hi := List.forall_mem_append.1 hi
    exact ⟨iha hi.1, ihb hi.2⟩
  | not c ih =>
    rw [predicate]
    split
    · rename_i l hl
      have hleaf : Leaf.comparison l ∈ c.leaves := by
        rw [(list?_eq_some hl).2.1]; exact List.mem_cons_self
      exact Leaf.plan_clean hm (hi _ hleaf) true
    · exact hparen _ (ih hi)
  | group c ih => exact ih hi

theorem parenIf_operand {b : Bool} {p : Predicate} (h : p.Layered)
    (hb : b = false → p.IsOperand) : (parenIf b p).IsOperand := by
  cases b
  · exact hb rfl
  · exact ⟨h, rfl⟩

theorem predicate_layered (m : Mapping) (c : Condition) :
    (c.predicate m).Layered ∧ (c.isOr = false → (c.predicate m).level ≤ 1) := by
  have hconj {c : Condition} (h : (c.predicate m).Layered ∧
      (c.isOr = false → (c.predicate m).level ≤ 1)) :
      (parenIf c.isOr (c.predicate m)).IsConjunction := by
    cases ho : c.isOr
    · exact ⟨h.1, h.2 ho⟩
    · exact ⟨h.1, Nat.zero_le 1⟩
  induction c with
  | leaf l =>
    have := (l.plan_operand m false).isConjunction
    exact ⟨this.1, fun _ => this.2⟩
  | and a b iha ihb =>
    exact ⟨⟨(hconj iha).1, (hconj ihb).1, (hconj iha).2, (hconj ihb).2⟩, fun _ => Nat.le_refl 1⟩
  | or a b iha ihb => exact ⟨⟨iha.1, ihb.1⟩, nofun⟩
  | not c ih =>
    rw [predicate]
    split
    · rename_i l _
      have := (l.plan_operand m true).isConjunction
      exact ⟨this.1, fun _ => this.2⟩
    · have hop : (parenIf (!c.isGroup) (c.predicate m)).IsOperand := by
        refine parenIf_operand ih.1 fun hg => ?_
        cases c with
        | group c => exact ⟨ih.1, rfl⟩
        | _ => cases hg
      exact ⟨hop, fun _ => Nat.zero_le 1⟩
  | group c ih => exact ⟨ih.1, fun _ => Nat.zero_le 1⟩

/-- The clauses of the predicate are those of the condition. -/
theorem clauses_predicate (hm : m.Usable IsLiteral) (hi : c.Identified) (hs : c.Shaped) :
    (c.predicate m).clauses = c.clauses.map (·.map (Formula.bind (Leaf.meaning m))) := by
  have hfactors {c : Condition}
      (h : (c.predicate m).clauses = c.clauses.map (·.map (Formula.bind (Leaf.meaning m)))) :
      (parenIf c.isOr (c.predicate m)).clauses.flatten =
        (if c.isOr then [.clauses c.clauses] else c.clauses.flatten).map
          (Formula.bind (Leaf.meaning m)) := by
    cases ho : c.isOr with
    | true =>
      change [Formula.clauses (c.predicate m).clauses] = [Formula.bind _ (.clauses c.clauses)]
      rw [h, Formula.bind_clauses]
    | false =>
      change (c.predicate m).clauses.flatten = c.clauses.flatten.map _
      rw [h, List.map_flatten]
  induction c with
  | leaf l => exact l.clauses_plan m
  | and a b iha ihb =>
    have hi := List.forall_mem_append.1 hi
    have hs := List.forall_mem_append.1 hs
    rw [predicate, Predicate.clauses, clauses, hfactors (iha hi.1 hs.1), hfactors (ihb hi.2 hs.2),
      List.map_singleton, List.map_append]
  | or a b iha ihb =>
    have hi := List.forall_mem_append.1 hi
    have hs := List.forall_mem_append.1 hs
    rw [predicate, Predicate.clauses, clauses, iha hi.1 hs.1, ihb hi.2 hs.2, List.map_append]
  | not c ih =>
    change _ = [[Formula.not (Formula.bind _ c.formula)]]
    rw [predicate]
    split
    · rename_i l hl
      obtain ⟨hf, hleaves, hop⟩ := list?_eq_some hl
      have hmem : Leaf.comparison l ∈ c.leaves := by rw [hleaves]; exact List.mem_cons_self
      obtain ⟨vs, hvs⟩ := test?_of_isIn hop (hs _ hmem)
      rw [hf, Comparison.clauses_negated hm (hi _ hmem) hvs]
      rfl
    · have : Formula.clauses (parenIf (!c.isGroup) (c.predicate m)).clauses =
          Formula.clauses (c.predicate m).clauses := by cases c.isGroup <;> rfl
      rw [Predicate.clauses, this, ih hi hs, ← Formula.bind_clauses]
      rfl
  | group c ih =>
    change [[Formula.clauses (c.predicate m).clauses]] = [[Formula.bind _ (.clauses c.clauses)]]
    rw [ih hi hs, Formula.bind_clauses]

/-- The text of the predicate reads as the condition over what its leaves read as. -/
theorem read?_predicate (hm : m.Usable IsLiteral) (hi : c.Identified) (hs : c.Shaped) :
    read? (c.predicate m).text = some (c.formula.bind (Leaf.meaning m)) := by
  rw [Predicate.read?_text (predicate_layered m c).1 (predicate_clean hm hi),
    clauses_predicate hm hi hs, formula, Formula.bind_clauses]

end Predicate

/-- The text of a predicate is one complete formula over what the texts of its leaves read as, with
the truth value of the condition. -/
theorem predicate_means {m : Mapping} (hm : m.Usable IsLiteral) {c : Condition}
    (hi : c.Identified) (hs : c.Shaped) :
    ∃ (f : Formula Leaf) (g : Leaf → Formula (List Item)),
      (∀ l ∈ c.leaves, read? ((leaf l).predicate m).text = some (g l)) ∧
      read? (c.predicate m).text = some (f.bind g) ∧
      f.atoms = c.leaves ∧
      ∀ v : Leaf → Truth, f.eval v = c.truth v := by
  refine ⟨c.formula, Leaf.meaning m, fun l hl => ?_, read?_predicate hm hi hs, atoms_formula c,
    fun v => eval_formula v c⟩
  have hil : (leaf l).Identified := fun k hk => by rw [List.mem_singleton.1 hk]; exact hi l hl
  have hsl : (leaf l).Shaped := fun k hk => by rw [List.mem_singleton.1 hk]; exact hs l hl
  exact read?_predicate hm hil hsl

/-- A young or an unnamed person, with no cow and no goat. -/
def herdCondition : Condition :=
  and (or (leaf (.comparison ⟨"age", .between, .range (.int 16) (.int 30), {}⟩))
      (leaf (.comparison ⟨"fullName", .eq, .single (.string "N) OR (N"), {}⟩)))
    (not (group (leaf (.comparison
      ⟨"herd.kind", .isIn, .list [.string "cow", .string "goat"], {}⟩))))

theorem herdCondition_means :
    ∃ (f : Formula Leaf) (g : Leaf → Formula (List Item)),
      (∀ l ∈ herdCondition.leaves, read? ((leaf l).predicate herdMapping).text = some (g l)) ∧
      read? (herdCondition.predicate herdMapping).text = some (f.bind g) ∧
      f.atoms = herdCondition.leaves ∧
      ∀ v : Leaf → Truth, f.eval v = herdCondition.truth v :=
  predicate_means herdMapping_usable (by decide +kernel) (by decide)

end Condition

end Eligibility
