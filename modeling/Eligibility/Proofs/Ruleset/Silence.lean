import Eligibility.Proofs.Plan.Support
import Eligibility.Proofs.Ruleset.Counts
import Eligibility.Proofs.Script.Shapes

/-!
# Scripts that compile silently

* `planWarnings_eq_nil`: plans that nothing is warned of;
* `Supports`: what a mapping has to support in rules, and the rules have to have by themselves;
* `warnings_assemble_eq_nil`: rules with operands of the right shapes;
* **`compileScript_silent`**: a script compiles without a warning exactly if its rules are
  supported.
-/

namespace Eligibility

theorem planWarnings_eq_nil {taken : List String} {ps : List RulePlan} :
    planWarnings taken ps = [] ↔ (∀ p ∈ ps, p.rule.code ∉ taken) ∧
      (ps.map (·.rule.code)).Nodup ∧ ∀ p ∈ ps, p.warnings = [] := by
  induction ps generalizing taken with
  | nil => simp [planWarnings]
  | cons p ps ih =>
    have htaken : (if p.rule.code ∈ taken then
        [CompilationWarning.general (.duplicateCode p.rule.code p.rule.name)] else []) = [] ↔
          p.rule.code ∉ taken := by
      split <;> simp [*]
    rw [planWarnings, List.append_eq_nil_iff, List.append_eq_nil_iff, List.map_eq_nil_iff, htaken,
      ih]
    simp only [List.map_cons, List.nodup_cons, List.forall_mem_cons]
    have hmem : p.rule.code ∉ ps.map (·.rule.code) ↔ ∀ q ∈ ps, q.rule.code ≠ p.rule.code := by
      rw [List.mem_map, not_exists]
      exact forall_congr' fun q => not_and
    rw [hmem]
    constructor
    · rintro ⟨⟨hp, hw⟩, hps, hnodup, hws⟩
      exact ⟨⟨hp, fun q hq => List.not_mem_of_not_mem_cons (hps q hq)⟩,
        ⟨fun q hq => List.ne_of_not_mem_cons (hps q hq), hnodup⟩, hw, hws⟩
    · rintro ⟨⟨hp, hps⟩, ⟨hne, hnodup⟩, hw, hws⟩
      exact ⟨⟨hp, hw⟩, fun q hq => List.not_mem_cons_of_ne_of_not_mem (hne q hq) (hps q hq),
        hnodup, hws⟩

/-- What a mapping has to support in rules for a scope, and what the rules have to have by
themselves. -/
structure Supports (m : Mapping) (scope : String) (rules : List Rule) : Prop where
  scope : scope = "" ∨ m.scope = scope
  codes : (rules.map (·.code)).Nodup
  condition : ∀ r ∈ rules, r.condition.isSome = true
  score : ∀ r ∈ rules, r.ruleType = .bonus → r.score.isSome = true
  leaves : ∀ r ∈ rules, ∀ l ∈ r.leaves, l.Supported m

theorem Rule.shaped_of_mem_leaves {r : Rule} (h : r.Shaped) {l : Leaf} (hl : l ∈ r.leaves) :
    l.Shaped := by
  obtain ⟨c, hc, hl⟩ := Rule.mem_leaves.1 hl
  exact h c hc l hl

section Silence

variable {m : Mapping} {rules : List Rule} (code scope : String)

/-- **Rules with operands of the right shapes compile silently exactly if they are supported.** -/
theorem warnings_assemble_eq_nil (hshaped : ∀ r ∈ rules, r.Shaped) :
    (assemble code scope m (rules.map (Rule.plan m))).warnings = [] ↔ Supports m scope rules := by
  have hscope : (scopeWarnings m scope).map CompilationWarning.general = [] ↔
      scope = "" ∨ m.scope = scope := by
    unfold scopeWarnings
    split <;> simp_all
  have hcodes : (rules.map (Rule.plan m)).map (·.rule.code) = rules.map (·.code) := by
    rw [List.map_map]
    exact List.map_congr_left fun r _ => congrArg Rule.code (Rule.rule_plan m r)
  have hrule (r : Rule) (hr : r ∈ rules) : (r.plan m).warnings = [] ↔ r.condition.isSome = true ∧
      (r.ruleType = .bonus → r.score.isSome = true) ∧ ∀ l ∈ r.leaves, l.Supported m := by
    rw [Rule.warnings_plan_eq_nil]
    refine and_congr_right fun _ => and_congr_right fun _ => forall₂_congr fun l hl => ?_
    exact Leaf.warnings_plan_eq_nil (Rule.shaped_of_mem_leaves (hshaped r hr) hl)
  show _ ++ _ = [] ↔ _
  rw [List.append_eq_nil_iff, hscope, planWarnings_eq_nil, hcodes]
  constructor
  · rintro ⟨hscope, -, hnodup, hwarned⟩
    have hall (r : Rule) (hr : r ∈ rules) := (hrule r hr).1 (hwarned _ (List.mem_map_of_mem hr))
    exact ⟨hscope, hnodup, fun r hr => (hall r hr).1, fun r hr => (hall r hr).2.1,
      fun r hr => (hall r hr).2.2⟩
  · intro h
    exact ⟨h.scope, fun _ _ => List.not_mem_nil, h.codes, List.forall_mem_map.2 fun r hr =>
      (hrule r hr).2 ⟨h.condition r hr, h.score r hr, h.leaves r hr⟩⟩

/-- **A script compiles silently exactly if its rules are supported.** Its scope is that of the
mapping or none, its codes differ, and every rule has a condition, and a score if it gives one. -/
theorem compileScript_silent (hm : m.check = .ok ()) {text : String}
    (h : (Report.ofText text).outcome = .ok rules) :
    ∃ s, compileScript text code scope m = .ok s ∧ (s.warnings = [] ↔ Supports m scope rules) := by
  have hrules : (Report.ofText text).rules = rules := by
    rw [Report.rules, h]
    rfl
  refine ⟨assemble code scope m (rules.map (Rule.plan m)), ?_,
    warnings_assemble_eq_nil code scope fun r hr => Report.shaped_of_mem_rules (hrules ▸ hr)⟩
  rw [compileScript, h]
  dsimp only
  rw [compile_of_check rules code scope hm]
  rfl

end Silence

/-- Goats and cows can be looked for by their kind, but a herd has no values to look for. -/
theorem herdScripts_silent :
    let supported := "RULE \"A\"\nWHEN age > 18 AND HAS_ANY(herd.kind, goat, cow)"
    let unsupported := "RULE \"A\"\nWHEN age > 18 AND HAS_ANY(herd, goat, cow)"
    (∃ s, compileScript supported "RS" "HERDERS" herdMapping = .ok s ∧ s.warnings = []) ∧
      Supports herdMapping "HERDERS" (Report.ofText supported).rules ∧
      ¬ Supports herdMapping "HERDERS" (Report.ofText unsupported).rules := by
  intro supported unsupported
  have hoks : (Report.ofText supported).outcome = .ok (Report.ofText supported).rules := by
    decide +kernel
  have hoku : (Report.ofText unsupported).outcome = .ok (Report.ofText unsupported).rules := by
    decide +kernel
  obtain ⟨s, hs, hsilent⟩ := compileScript_silent "RS" "HERDERS" (m := herdMapping) rfl hoks
  obtain ⟨u, hu, hloud⟩ := compileScript_silent "RS" "HERDERS" (m := herdMapping) rfl hoku
  have hswarnings : s.warnings = [] := by
    have h : (compileScript supported "RS" "HERDERS" herdMapping).toOption.map (·.warnings) =
        some [] := by decide +kernel
    rw [hs] at h
    exact Option.some.inj h
  have huwarnings : u.warnings ≠ [] := by
    have h : (compileScript unsupported "RS" "HERDERS" herdMapping).toOption.map (·.warnings) ≠
        some [] := by decide +kernel
    rw [hu] at h
    exact fun hnil => h (congrArg some hnil)
  exact ⟨⟨s, hs, hswarnings⟩, hsilent.1 hswarnings, mt hloud.2 huwarnings⟩

end Eligibility
