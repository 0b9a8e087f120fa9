import Eligibility.Proofs.Plan.Condition
import Eligibility.Proofs.Sql.Query
import Eligibility.Ruleset.Compile

/-!
# Clauses of rulesets

The clauses of a ruleset join the predicates of its rules. Each of them is a formula over those
predicates, whatever the predicates are.

* `formula_all`, `formula_any`: chains of predicates in parentheses;
* `Rule.WellFormed`, `Rule.Identified`, `Rule.meaning`: what the predicate of a rule reads as;
* `gating`, `excluding`, `scoring`: the rules that a clause joins;
* **`compile_means`**: the clauses read as what the types of the rules say.
-/

namespace Eligibility

open Sql

/-! ## Chains -/

namespace Sql.Predicate

theorem clauses_foldl_and (ps : List Predicate) {p : Predicate} (h : p.clauses.length = 1) :
    (ps.foldl and p).clauses = [p.clauses.flatten ++ ps.flatMap (·.clauses.flatten)] := by
  induction ps generalizing p with
  | nil =>
    obtain ⟨fs, hfs⟩ := List.length_eq_one_iff.1 h
    simp [hfs]
  | cons q ps ih =>
    rw [List.foldl_cons, ih (p := .and p q) rfl]
    simp [clauses]

theorem clauses_foldl_or (ps : List Predicate) (p : Predicate) :
    (ps.foldl or p).clauses = p.clauses ++ ps.flatMap clauses := by
  induction ps generalizing p with
  | nil => simp
  | cons q ps ih => rw [List.foldl_cons, ih, clauses, List.flatMap_cons, List.append_assoc]

theorem layered_any {ps : List Predicate} (h : ∀ p ∈ ps, p.Layered) : (any ps).Layered :=
  any_of_or trivial (fun _ _ hp hq => ⟨hp, hq⟩) h

/-- A chain of `AND` over predicates in parentheses is their conjunction. -/
theorem formula_all (ps : List Predicate) :
    (all (ps.map paren)).formula = Formula.all (ps.map formula) := by
  cases ps with
  | nil => rfl
  | cons p ps =>
    have h : (paren p).clauses.length = 1 := rfl
    have hf : (ps.map paren).flatMap (·.clauses.flatten) = ps.map formula := by
      rw [List.flatMap_map, List.map_eq_flatMap]; rfl
    rw [formula, List.map_cons, all, clauses_foldl_and _ h, hf]
    rfl

/-- A chain of `OR` over predicates in parentheses is their disjunction. -/
theorem formula_any (ps : List Predicate) :
    (any (ps.map paren)).formula = Formula.any (ps.map formula) := by
  cases ps with
  | nil => rfl
  | cons p ps =>
    have hf : (ps.map paren).flatMap clauses = ps.map fun q => [q.formula] := by
      rw [List.flatMap_map, List.map_eq_flatMap]; rfl
    rw [formula, List.map_cons, any, clauses_foldl_or, hf, Formula.clauses, List.map_append,
      List.map_map]
    rfl

end Sql.Predicate

/-! ## Rules -/

namespace Rule

/-- The condition, if there is one, names identifiers and has the operands its operators need. -/
def WellFormed (r : Rule) : Prop := ∀ c ∈ r.condition, c.Identified ∧ c.Shaped

instance (r : Rule) : Decidable r.WellFormed := inferInstanceAs (Decidable (∀ c ∈ _, _ ∧ _))

/-- The condition, if there is one, names identifiers. -/
def Identified (r : Rule) : Prop := ∀ c ∈ r.condition, c.Identified

instance (r : Rule) : Decidable r.Identified := inferInstanceAs (Decidable (∀ c ∈ _, _))

theorem WellFormed.identified {r : Rule} (h : r.WellFormed) : r.Identified :=
  fun c hc => (h c hc).1

theorem rule_plan (m : Mapping) (r : Rule) : (r.plan m).rule = r := by
  unfold plan; split <;> rfl

theorem predicate_clean {m : Mapping} {lit : String → Prop} (hm : m.Usable lit) {r : Rule}
    (h : r.Identified) : (r.plan m).predicate.Clean lit := by
  unfold plan
  split
  · rename_i c hc; exact Condition.predicate_clean hm (h c hc)
  · trivial

theorem predicate_layered (m : Mapping) (r : Rule) : (r.plan m).predicate.Layered := by
  unfold plan
  split
  · exact (Condition.predicate_layered m _).1
  · trivial

/-- What the predicate of a rule reads as. -/
def meaning (m : Mapping) (r : Rule) : Formula (List Sql.Item) := (r.plan m).predicate.formula

theorem read?_predicate {m : Mapping} (hm : m.Usable IsLiteral) {r : Rule} (h : r.Identified) :
    read? (r.plan m).predicate.text = some (r.meaning m) :=
  Predicate.read?_text (predicate_layered m r) (predicate_clean hm h)

/-- The number that a rule adds to the score of a candidate. -/
def bonus (r : Rule) : Int := (r.score.getD 0).toInt

end Rule

/-! ## Clauses -/

/-- The rules that have to hold for a candidate to be eligible. -/
def gating (rs : List Rule) : List Rule :=
  rs.filter fun r => r.mandatory && (r.ruleType = .inclusion || r.ruleType = .priority)

/-- The rules that disqualify a candidate. -/
def excluding (rs : List Rule) : List Rule := rs.filter fun r => r.ruleType = .exclusion

/-- The rules that add to the score of a candidate. -/
def scoring (rs : List Rule) : List Rule := rs.filter fun r => r.ruleType = .bonus

section Clauses

variable (m : Mapping) (rs : List Rule)

theorem eligibility_plan : eligibility (rs.map (Rule.plan m)) =
    .all (((gating rs).map fun r => (r.plan m).predicate).map .paren) := by
  have hg : (RulePlan.gates ∘ Rule.plan m) =
      fun r => r.mandatory && (r.ruleType = .inclusion || r.ruleType = .priority) := by
    funext r
    simp [RulePlan.gates, Rule.rule_plan]
  rw [eligibility, List.filter_map, hg, List.map_map, List.map_map]
  rfl

theorem exclusion_plan : exclusion (rs.map (Rule.plan m)) =
    .any (((excluding rs).map fun r => (r.plan m).predicate).map .paren) := by
  have he : (RulePlan.excludes ∘ Rule.plan m) = fun r => decide (r.ruleType = .exclusion) := by
    funext r
    simp [RulePlan.excludes, Rule.rule_plan]
  rw [exclusion, List.filter_map, he, List.map_map, List.map_map]
  rfl

/-- The eligibility clause is a formula over the gating rules. -/
theorem formula_eligibility : (eligibility (rs.map (Rule.plan m))).formula =
    (Formula.all ((gating rs).map .atom)).bind (Rule.meaning m) := by
  rw [eligibility_plan, Predicate.formula_all, Formula.bind_all, List.map_map, List.map_map]
  rfl

/-- The exclusion clause is a formula over the rules that disqualify. -/
theorem formula_exclusion : (exclusion (rs.map (Rule.plan m))).formula =
    (Formula.any ((excluding rs).map .atom)).bind (Rule.meaning m) := by
  rw [exclusion_plan, Predicate.formula_any, Formula.bind_any, List.map_map, List.map_map]
  rfl

theorem scoreCases_plan : scoreCases (rs.map (Rule.plan m)) =
    (scoring rs).map fun r => (r.plan m).case := by
  have hs : (RulePlan.scores ∘ Rule.plan m) = fun r => decide (r.ruleType = .bonus) := by
    funext r
    simp [RulePlan.scores, Rule.rule_plan]
  rw [scoreCases, List.filter_map, hs, List.map_map]
  rfl

/-- The summands of the score, over the predicates of rules. -/
def bonusSummands : List (Summand Rule) :=
  if scoring rs = [] then [.number 0] else (scoring rs).map fun r => .choice (.atom r) r.bonus 0

theorem summand_case {r : Rule} (h : r ∈ scoring rs) :
    (r.plan m).case.summand = (Summand.choice (.atom r) r.bonus 0).bind (Rule.meaning m) := by
  have ht : r.ruleType = .bonus := by simpa using (List.mem_filter.1 h).2
  have hy : (r.plan m).yields = r.score.getD 0 := by
    rw [RulePlan.yields, Rule.rule_plan, if_pos ht]
  change Summand.choice _ (r.plan m).yields.toInt 0 = _
  rw [hy]
  rfl

theorem scoreSummands_plan : scoreSummands (scoreCases (rs.map (Rule.plan m))) =
    (bonusSummands rs).map (Summand.bind (Rule.meaning m)) := by
  rw [scoreSummands, scoreCases_plan, bonusSummands]
  by_cases hn : scoring rs = []
  · rw [hn]; rfl
  · rw [if_neg (by simpa using hn), if_neg hn, List.map_map, List.map_map]
    exact List.map_congr_left fun r hr => summand_case m rs hr

theorem scoreValue_bonusSummands (v : Rule → Truth) : scoreValue v (bonusSummands rs) =
    ((scoring rs).map fun r => if v r = .true then r.bonus else 0).sum := by
  unfold bonusSummands
  split
  · rename_i hn; rw [hn]; rfl
  · rw [scoreValue, List.map_map]; rfl

end Clauses

section Compile

variable {m : Mapping} (hm : m.Usable IsLiteral) {rs : List Rule} (hr : ∀ r ∈ rs, r.Identified)
include hm hr

theorem parens_clean {q : Rule → Bool} :
    ∀ p ∈ ((rs.filter q).map fun r => (r.plan m).predicate).map Predicate.paren,
      p.Layered ∧ p.Clean IsLiteral := by
  intro p hp
  obtain ⟨p', hp', rfl⟩ := List.mem_map.1 hp
  obtain ⟨r, hr', rfl⟩ := List.mem_map.1 hp'
  exact ⟨Rule.predicate_layered m r, Rule.predicate_clean hm (hr r (List.mem_filter.1 hr').1)⟩

theorem eligibility_clean : (eligibility (rs.map (Rule.plan m))).Layered ∧
    (eligibility (rs.map (Rule.plan m))).Clean IsLiteral := by
  rw [eligibility_plan]
  have h := parens_clean hm hr (q := fun r =>
    r.mandatory && (r.ruleType = .inclusion || r.ruleType = .priority))
  refine ⟨(Predicate.isConjunction_all fun p hp => ?_).1,
    Predicate.clean_all fun p hp => (h p hp).2⟩
  obtain ⟨p, -, rfl⟩ := List.mem_map.1 hp
  exact ⟨(h _ hp).1, Nat.zero_le 1⟩

theorem exclusion_clean : (exclusion (rs.map (Rule.plan m))).Layered ∧
    (exclusion (rs.map (Rule.plan m))).Clean IsLiteral := by
  rw [exclusion_plan]
  have h := parens_clean hm hr (q := fun r => r.ruleType = .exclusion)
  exact ⟨Predicate.layered_any fun p hp => (h p hp).1, Predicate.clean_any fun p hp => (h p hp).2⟩

theorem scoreCases_clean : ∀ c ∈ scoreCases (rs.map (Rule.plan m)),
    c.condition.Layered ∧ c.condition.Clean IsLiteral := by
  intro c hc
  rw [scoreCases_plan] at hc
  obtain ⟨r, hr', rfl⟩ := List.mem_map.1 hc
  exact ⟨Rule.predicate_layered m r, Rule.predicate_clean hm (hr r (List.mem_filter.1 hr').1)⟩

theorem read?_eligibility : read? (eligibility (rs.map (Rule.plan m))).text =
    some ((Formula.all ((gating rs).map .atom)).bind (Rule.meaning m)) := by
  obtain ⟨hl, hc⟩ := eligibility_clean hm hr
  rw [Predicate.read?_text hl hc, ← formula_eligibility]
  rfl

theorem read?_exclusion : read? (exclusion (rs.map (Rule.plan m))).text =
    some ((Formula.any ((excluding rs).map .atom)).bind (Rule.meaning m)) := by
  obtain ⟨hl, hc⟩ := exclusion_clean hm hr
  rw [Predicate.read?_text hl hc, ← formula_exclusion]
  rfl

/-- The predicates of the compiled rules read as what they mean. -/
theorem read?_rules :
    ((rs.map (Rule.plan m)).map RulePlan.compiled).map (fun c => read? c.whereClause) =
      rs.map fun r => some (r.meaning m) := by
  rw [List.map_map, List.map_map]
  exact List.map_congr_left fun r h => Rule.read?_predicate hm (hr r h)

theorem query?_fullQuery (code scope : String) :
    query? (assemble code scope m (rs.map (Rule.plan m))).fullQuery =
      some ⟨m.schema.keyExpression, (bonusSummands rs).map (Summand.bind (Rule.meaning m)),
        m.schema.baseTable, m.schema.baseAlias,
        (Formula.and (.all ((gating rs).map .atom))
          (.not (.any ((excluding rs).map .atom)))).bind (Rule.meaning m)⟩ := by
  obtain ⟨hel, hec⟩ := eligibility_clean hm hr
  obtain ⟨hxl, hxc⟩ := exclusion_clean hm hr
  have hl : (selection (rs.map (Rule.plan m))).Layered :=
    ⟨hel, ⟨hxl, rfl⟩, Nat.zero_le 1, Nat.zero_le 1⟩
  have hs := hm.checked.schema
  have hkey : isName m.schema.keyExpression.toList = true := by
    have := isName_column hs.baseAlias hs.keyColumn
    simpa [Schema.keyExpression] using this
  have hq := query?_text hkey (isName_of_qualified hs.baseTable) (isName_of_plain hs.baseAlias)
    (scoreCases_clean hm hr) hl ⟨hec, hxc⟩
  rw [scoreSummands_plan] at hq
  rw [Formula.bind, Formula.bind, ← formula_eligibility, ← formula_exclusion]
  refine Eq.trans (congrArg query? (String.toList_inj.1 ?_)) hq
  change ("SELECT " ++ m.schema.keyExpression ++ ", " ++ scoreText _ ++ " AS total_score " ++
    ("FROM " ++ m.schema.baseTable ++ " " ++ m.schema.baseAlias) ++ " WHERE " ++
    (selection (rs.map (Rule.plan m))).text ++ " ORDER BY total_score DESC").toList = _
  simp

end Compile

/-- The clauses of a compiled ruleset are formulas over the predicates of its rules, which make
candidates eligible, disqualify them and score them as the types of the rules say. -/
theorem compile_means {m : Mapping} (hm : m.Usable IsLiteral) {rs : List Rule}
    (hr : ∀ r ∈ rs, r.WellFormed) (code scope : String) :
    ∃ (s : Ruleset) (w : Rule → Formula (List Sql.Item)) (e x f : Formula Rule)
      (ss : List (Summand Rule)),
      compile rs code scope m = .ok s ∧
      s.rules.map (fun c => read? c.whereClause) = rs.map (fun r => some (w r)) ∧
      read? s.eligibilityClause = some (e.bind w) ∧
      read? s.exclusionClause = some (x.bind w) ∧
      readSum? s.scoreExpression = some (ss.map (Summand.bind w)) ∧
      query? s.fullQuery = some ⟨m.schema.keyExpression, ss.map (Summand.bind w),
        m.schema.baseTable, m.schema.baseAlias, f.bind w⟩ ∧
      ∀ v : Rule → Truth,
        e.eval v = Truth.all ((gating rs).map v) ∧
        x.eval v = Truth.any ((excluding rs).map v) ∧
        scoreValue v ss = ((scoring rs).map fun r => if v r = .true then r.bonus else 0).sum ∧
        f.eval v = (e.eval v).and (x.eval v).not := by
  replace hr (r : Rule) (h : r ∈ rs) : r.Identified := (hr r h).identified
  refine ⟨assemble code scope m (rs.map (Rule.plan m)), Rule.meaning m, _, _, _, bonusSummands rs,
    ?_, read?_rules hm hr, read?_eligibility hm hr, read?_exclusion hm hr, ?_,
    query?_fullQuery hm hr code scope, fun v => ⟨?_, ?_, scoreValue_bonusSummands rs v, rfl⟩⟩
  · rw [compile, hm.check]; rfl
  · change readSum? (scoreText _) = _
    rw [readSum?_scoreText (scoreCases_clean hm hr), scoreSummands_plan]
  · rw [Formula.eval_all, List.map_map]; rfl
  · rw [Formula.eval_any, List.map_map]; rfl

/-- Rules of every type, mandatory and not, with and without a condition. -/
def herdRules : List Rule :=
  [{ Rule.named "herder" with condition := some Condition.herdCondition },
    { Rule.named "young" with
      ruleType := .priority
      mandatory := false
      condition := some (.leaf (.comparison ⟨"age", .lt, .single (.int 21), {}⟩)) },
    { Rule.named "goats" with
      ruleType := .exclusion
      condition := some (.or
        (.leaf (.comparison ⟨"herd.kind", .eq, .single (.string "goat"), {}⟩))
        (.leaf (.comparison ⟨"herd", .isEmpty, .none, {}⟩))) },
    { Rule.named "welcome" with ruleType := .bonus, score := some 5 },
    { Rule.named "old" with
      ruleType := .bonus
      score := some (-3)
      condition := some (.leaf (.comparison ⟨"age", .gte, .single (.int 60), {}⟩)) }]

theorem herdRules_compile_means :
    ∃ (s : Ruleset) (w : Rule → Formula (List Sql.Item)) (e x f : Formula Rule)
      (ss : List (Summand Rule)),
      compile herdRules "HERD" "HERDERS" herdMapping = .ok s ∧
      s.rules.map (fun c => read? c.whereClause) = herdRules.map (fun r => some (w r)) ∧
      read? s.eligibilityClause = some (e.bind w) ∧
      read? s.exclusionClause = some (x.bind w) ∧
      readSum? s.scoreExpression = some (ss.map (Summand.bind w)) ∧
      query? s.fullQuery = some ⟨herdMapping.schema.keyExpression, ss.map (Summand.bind w),
        herdMapping.schema.baseTable, herdMapping.schema.baseAlias, f.bind w⟩ ∧
      ∀ v : Rule → Truth,
        e.eval v = Truth.all ((gating herdRules).map v) ∧
        x.eval v = Truth.any ((excluding herdRules).map v) ∧
        scoreValue v ss =
          ((scoring herdRules).map fun r => if v r = .true then r.bonus else 0).sum ∧
        f.eval v = (e.eval v).and (x.eval v).not :=
  compile_means herdMapping_usable (by decide +kernel) "HERD" "HERDERS"

end Eligibility
