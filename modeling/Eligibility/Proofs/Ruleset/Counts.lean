import Eligibility.Proofs.Plan.Warning
import Eligibility.Ruleset.Compile

/-!
# Counts and places of compiled rulesets

* `Ruleset.IsCounted`: the stored counts are those of the rules, with **`compile_isCounted`**;
* `PlanWarning.initial`, `head?_message`: the letter that a message starts with;
* `Rule.places`: the start of a rule and the places of its leaves;
* **`compile_warnings_placed`**: each warning stands at a place of some rule, or nowhere.
-/

namespace Eligibility

/-! ## Counts -/

theorem RuleType.mem_all (t : RuleType) : t ∈ RuleType.all := by
  cases t <;> decide

/-- The stored counts of rules are those of the rules. -/
structure Ruleset.IsCounted (r : Ruleset) : Prop where
  total : r.totalRules = r.rules.length
  ofType (t : RuleType) : r.countOf t = r.rules.countP (·.ruleType = t)

section Compile

variable {rules : List Rule} {code scope : String} {m : Mapping} {r : Ruleset}

theorem compile_eq_ok (h : compile rules code scope m = .ok r) :
    r = assemble code scope m (rules.map (Rule.plan m)) := by
  unfold compile at h
  cases hm : m.check with
  | error e =>
    rw [hm] at h
    cases h
  | ok u =>
    rw [hm] at h
    cases h
    rfl

theorem compile_of_check (rules : List Rule) (code scope : String) (h : m.check = .ok ()) :
    compile rules code scope m = .ok (assemble code scope m (rules.map (Rule.plan m))) := by
  rw [compile, h]
  rfl

theorem assemble_isCounted (code scope : String) (m : Mapping) (ps : List RulePlan) :
    (assemble code scope m ps).IsCounted where
  total := (List.length_map _).symm
  ofType t := by
    have hcount : (ps.map RulePlan.compiled).countP (·.ruleType = t) =
        ps.countP (·.rule.ruleType = t) := List.countP_map
    cases t <;> exact hcount.symm

/-- **A compiled ruleset is counted.** -/
theorem compile_isCounted (h : compile rules code scope m = .ok r) : r.IsCounted := by
  rw [compile_eq_ok h]
  exact assemble_isCounted code scope m _

/-! ## Messages -/

/-- The letter that the message of a warning starts with. -/
def PlanWarning.initial : PlanWarning → Char
  | unknownField _ => 'U'
  | comparedGrid _ => 'G'
  | operatorNotApplicable .. | malformedOperand .. | resultNotComparable .. => 'O'
  | notAGrid .. | functionNotPermitted .. | aggregatedGrid .. | valuesOfGrid .. => 'F'
  | nothingToHave _ => 'H'
  | noCondition _ => 'R'
  | noScore _ => 'B'
  | duplicateCode .. => 'D'
  | scopeMismatch .. => 'F'

theorem head?_toList_append {a b : String} {c : Char} (ha : a.toList.head? = some c) :
    (a ++ b).toList.head? = some c := by
  rw [String.toList_append, List.head?_append, ha]
  rfl

theorem PlanWarning.head?_message (w : PlanWarning) :
    w.message.toList.head? = some w.initial := by
  cases w <;>
  · dsimp only [message, toString]
    simp only [String.append_assoc]
    exact head?_toList_append rfl

/-! ## Places -/

/-- The places in a script that belong to a rule: its start and those of its leaves. -/
def Rule.places (r : Rule) : List Position :=
  r.start :: r.condition.elim [] fun c => c.leaves.map Leaf.position

theorem Rule.start_mem_places (r : Rule) : r.start ∈ r.places := List.mem_cons_self

theorem mem_warnings_plan {r : Rule} {w : Position × PlanWarning}
    (h : w ∈ (r.plan m).warnings) : w.1 ∈ r.places := by
  obtain ⟨p, w⟩ := w
  cases Rule.objection_of_mem_warnings h with
  | leaf hc hl _ =>
    rw [Rule.places, hc]
    exact List.mem_cons_of_mem _ (List.mem_map_of_mem hl)
  | noCondition => exact r.start_mem_places
  | noScore => exact r.start_mem_places

theorem mem_planWarnings {taken : List String} {ps : List RulePlan} {w : CompilationWarning}
    (h : w ∈ planWarnings taken ps) :
    (∃ code name, w = .general (.duplicateCode code name)) ∨
      ∃ p ∈ ps, ∃ v ∈ p.warnings, w = ⟨some p.rule.code, v.1, v.2.message⟩ := by
  induction ps generalizing taken with
  | nil => cases h
  | cons p ps ih =>
    rw [planWarnings, List.mem_append, List.mem_append] at h
    rcases h with (hw | hw) | hw
    · split at hw
      · exact .inl ⟨_, _, List.mem_singleton.1 hw⟩
      · cases hw
    · obtain ⟨v, hv, rfl⟩ := List.mem_map.1 hw
      exact .inr ⟨p, List.mem_cons_self, v, hv, rfl⟩
    · exact (ih hw).imp_right fun ⟨q, hq, hv⟩ => ⟨q, List.mem_cons_of_mem _ hq, hv⟩

/-- A warning of a compiled ruleset is about its scope, about a code, or one of a rule. -/
theorem compile_mem_warnings (h : compile rules code scope m = .ok r) {w : CompilationWarning}
    (hw : w ∈ r.warnings) :
    w = .general (.scopeMismatch m.scope scope) ∨
      (∃ code name, w = .general (.duplicateCode code name)) ∨
      ∃ rule ∈ rules, ∃ v ∈ (rule.plan m).warnings,
        w = ⟨some (rule.plan m).rule.code, v.1, v.2.message⟩ := by
  rw [compile_eq_ok h] at hw
  rcases List.mem_append.1 hw with hw | hw
  · obtain ⟨v, hv, rfl⟩ := List.mem_map.1 hw
    unfold scopeWarnings at hv
    split at hv
    · cases hv
    · exact .inl (congrArg _ (List.mem_singleton.1 hv))
  · refine .inr ((mem_planWarnings hw).imp_right fun ⟨p, hp, v, hv, hv'⟩ => ?_)
    obtain ⟨rule, hrule, rfl⟩ := List.mem_map.1 hp
    exact ⟨rule, hrule, v, hv, hv'⟩

/-- **The warnings of a compiled ruleset are placed.** A warning stands at a place of one of the
rules; one that is about no place in a script stands nowhere. -/
theorem compile_warnings_placed (h : compile rules code scope m = .ok r) {w : CompilationWarning}
    (hw : w ∈ r.warnings) : w.position = {} ∨ ∃ rule ∈ rules, w.position ∈ rule.places := by
  rcases compile_mem_warnings h hw with rfl | ⟨_, _, rfl⟩ | ⟨rule, hrule, v, hv, rfl⟩
  · exact .inl rfl
  · exact .inl rfl
  · exact .inr ⟨rule, hrule, mem_warnings_plan hv⟩

end Compile

end Eligibility
