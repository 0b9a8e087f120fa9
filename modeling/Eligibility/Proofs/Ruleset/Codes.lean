import Eligibility.Proofs.Field.Resolution
import Eligibility.Proofs.Ruleset.Clauses

/-!
# Rules of one code

A ruleset finds the first rule of a code. Compilation warns of a rule when an earlier one has its
code, and these are the rules that cannot be found.

* `Ruleset.place?`, `Ruleset.rule?_eq_bind`: the place that a code leads to;
* `Rule.duplicate`, `Rule.ownWarnings`: the warnings that a rule brings;
* `planWarnings_eq_flatMap`: the warnings rule by rule;
* `CompilationWarning.isDuplicate`: the warnings of taken codes, told by their texts;
* **`compile_warns_of_hidden`**.
-/

namespace Eligibility

/-! ## Lookup -/

namespace Ruleset

/-- The place of the rule that a code leads to. -/
def place? (s : Ruleset) (code : String) : Option Nat := s.rules.findIdx? (·.code = code)

theorem rule?_eq_bind (s : Ruleset) (code : String) :
    s.rule? code = (s.place? code).bind fun i => s.rules[i]? :=
  List.find?_eq_bind_findIdx?_getElem?

end Ruleset

/-- A rule is the first one of its code if no rule before it has the code. -/
theorem findIdx?_code_eq_some {before after : List Rule} {r : Rule} :
    (before ++ r :: after).findIdx? (·.code = r.code) = some before.length ↔
      ∀ q ∈ before, q.code ≠ r.code := by
  rw [List.findIdx?_append, List.findIdx?_cons, if_pos (decide_eq_true rfl), Option.map_some,
    Nat.zero_add]
  constructor
  · intro h q hq hcode
    cases hbefore : before.findIdx? (·.code = r.code) with
    | none =>
      exact absurd hcode (of_decide_eq_false (List.findIdx?_eq_none_iff.1 hbefore q hq))
    | some i =>
      rw [hbefore] at h
      obtain ⟨hi, -⟩ := List.findIdx?_eq_some_iff_getElem.1 hbefore
      exact absurd (Option.some.inj h) (Nat.ne_of_lt hi)
  · intro h
    have hbefore : before.findIdx? (·.code = r.code) = none :=
      List.findIdx?_eq_none_iff.2 fun q hq => decide_eq_false (h q hq)
    rw [hbefore]
    rfl

/-! ## Warnings of one rule -/

namespace Rule

/-- The warning that the code of a rule is taken. -/
def duplicate (r : Rule) : CompilationWarning := .general (.duplicateCode r.code r.name)

/-- The warnings about a rule by itself. -/
def ownWarnings (m : Mapping) (r : Rule) : List CompilationWarning :=
  (r.plan m).warnings.map fun w => ⟨some r.code, w.1, w.2.message⟩

end Rule

/-- The rules are warned of in their order: of a rule that its code does not lead to, then of what
is wrong with the rule by itself. The induction is on the rules that are left. -/
theorem planWarnings_eq_flatMap (m : Mapping) (before after : List Rule) {taken : List String}
    (htaken : ∀ code, code ∈ taken ↔ ∃ q ∈ before, q.code = code) :
    planWarnings taken (after.map (Rule.plan m)) = (after.zipIdx before.length).flatMap fun p =>
      (if (before ++ after).findIdx? (·.code = p.1.code) = some p.2 then [] else [p.1.duplicate]) ++
        p.1.ownWarnings m := by
  induction after generalizing before taken with
  | nil => rfl
  | cons r after ih =>
    have hnext (code : String) :
        code ∈ r.code :: taken ↔ ∃ q ∈ before ++ [r], q.code = code := by
      simp only [List.mem_cons, htaken, List.mem_append, List.not_mem_nil, or_false]
      constructor
      · rintro (rfl | ⟨q, hq, hcode⟩)
        · exact ⟨r, .inr rfl, rfl⟩
        · exact ⟨q, .inl hq, hcode⟩
      · rintro ⟨q, hq | rfl, hcode⟩
        · exact .inr ⟨q, hq, hcode⟩
        · exact .inl hcode.symm
    have hfirst : r.code ∈ taken ↔
        ¬ (before ++ r :: after).findIdx? (·.code = r.code) = some before.length := by
      rw [findIdx?_code_eq_some, htaken]
      simp
    have hsplit : before ++ r :: after = before ++ [r] ++ after := by simp
    rw [List.map_cons, planWarnings, Rule.rule_plan, ih (before ++ [r]) hnext, List.zipIdx_cons,
      List.flatMap_cons, List.length_append, List.length_singleton, ← hsplit]
    refine congrArg₂ _ (congrArg₂ _ ?_ rfl) rfl
    by_cases h : r.code ∈ taken
    · rw [if_pos h, if_neg (hfirst.1 h)]
      rfl
    · rw [if_neg h, if_pos (Decidable.not_not.1 (mt hfirst.2 h))]

/-! ## Warnings told apart -/

namespace CompilationWarning

/-- The text warns of a duplicate code. -/
def isDuplicate (w : CompilationWarning) : Bool :=
  "Duplicate rule code ".toList.isPrefixOf w.message.toList

theorem isDuplicate_of_ne {v : PlanWarning} (h : ∀ code name, v ≠ .duplicateCode code name)
    (rule : Option String) (p : Position) : isDuplicate ⟨rule, p, v.message⟩ = false := by
  rw [isDuplicate, Bool.eq_false_iff]
  intro hprefix
  obtain ⟨rest, hrest⟩ := List.isPrefixOf_iff_prefix.1 hprefix
  have hhead := v.head?_message
  rw [← hrest] at hhead
  have hinitial : v.initial = 'D' := (Option.some.inj hhead).symm
  cases v with
  | duplicateCode code name => exact h code name rfl
  | _ => cases hinitial

end CompilationWarning

theorem Rule.isDuplicate_duplicate (r : Rule) : r.duplicate.isDuplicate = true := by
  refine List.isPrefixOf_iff_prefix.2 ?_
  dsimp only [duplicate, CompilationWarning.general, PlanWarning.message, toString]
  simp only [String.toList_append, List.append_assoc]
  have hfront : "Duplicate rule code ".toList <+: "Duplicate rule code '".toList :=
    ⟨['\''], by decide⟩
  exact hfront.trans (List.prefix_append _ _)

/-- The warnings about a rule by itself do not speak of its code. -/
theorem Rule.duplicateCode_notMem_warnings {m : Mapping} {code name : String} (r : Rule)
    (p : Position) : (p, .duplicateCode code name) ∉ (r.plan m).warnings := by
  intro h
  cases objection_of_mem_warnings h with
  | leaf _ _ h =>
    cases h with
    | field h => cases h
    | call h => cases h

theorem Rule.isDuplicate_ownWarnings {m : Mapping} {r : Rule} {w : CompilationWarning}
    (h : w ∈ r.ownWarnings m) : w.isDuplicate = false := by
  obtain ⟨⟨p, v⟩, hv, rfl⟩ := List.mem_map.1 h
  refine CompilationWarning.isDuplicate_of_ne ?_ _ _
  rintro code name rfl
  exact r.duplicateCode_notMem_warnings p hv

theorem isDuplicate_scopeWarnings {m : Mapping} {scope : String} {w : CompilationWarning}
    (h : w ∈ (scopeWarnings m scope).map CompilationWarning.general) : w.isDuplicate = false := by
  obtain ⟨v, hv, rfl⟩ := List.mem_map.1 h
  unfold scopeWarnings at hv
  split at hv
  · cases hv
  · rw [List.mem_singleton.1 hv]
    refine CompilationWarning.isDuplicate_of_ne ?_ _ _
    intro code name h
    cases h

/-! ## Rulesets -/

theorem flatMap_eq_map_filter {α β : Type} (p : α → Prop) [DecidablePred p] (f : α → β)
    (xs : List α) :
    (xs.flatMap fun x => if p x then [] else [f x]) = (xs.filter fun x => ¬ p x).map f := by
  induction xs with
  | nil => rfl
  | cons x xs ih => by_cases hx : p x <;> simp [hx, ih]

section Compile

variable {m : Mapping} {rules : List Rule} {code scope : String} {s : Ruleset}

theorem rules_of_compile (h : compile rules code scope m = .ok s) :
    s.rules = rules.map fun r => (r.plan m).compiled := by
  rw [compile_eq_ok h]
  exact List.map_map

theorem code_compiled (m : Mapping) (c : String) :
    (fun r => decide (r.code = c)) ∘ (fun r => (Rule.plan m r).compiled) =
      fun r : Rule => decide (r.code = c) := by
  funext r
  change decide ((r.plan m).rule.code = c) = _
  rw [Rule.rule_plan]

theorem rule?_of_compile (h : compile rules code scope m = .ok s) (c : String) :
    s.rule? c = (rules.find? (·.code = c)).map fun r => (r.plan m).compiled := by
  rw [Ruleset.rule?, rules_of_compile h, List.find?_map, code_compiled]

theorem place?_of_compile (h : compile rules code scope m = .ok s) (c : String) :
    s.place? c = rules.findIdx? (·.code = c) := by
  rw [Ruleset.place?, rules_of_compile h, List.findIdx?_map, code_compiled]

/-- The warnings about the rule at a place: that its code leads elsewhere, and its own ones. -/
def Ruleset.warningsAt (s : Ruleset) (m : Mapping) (p : Rule × Nat) : List CompilationWarning :=
  (if s.place? p.1.code = some p.2 then [] else [p.1.duplicate]) ++ p.1.ownWarnings m

theorem warnings_of_compile (h : compile rules code scope m = .ok s) :
    s.warnings =
      (scopeWarnings m scope).map .general ++ rules.zipIdx.flatMap (s.warningsAt m) := by
  have hnone (code : String) :
      code ∈ ([] : List String) ↔ ∃ q ∈ ([] : List Rule), q.code = code := by simp
  have hat : s.warningsAt m = fun p =>
      (if (([] : List Rule) ++ rules).findIdx? (·.code = p.1.code) = some p.2 then []
        else [p.1.duplicate]) ++ p.1.ownWarnings m := by
    funext p
    rw [Ruleset.warningsAt, place?_of_compile h, List.nil_append]
  have hplans := planWarnings_eq_flatMap m [] rules hnone
  rw [hat, ← List.length_nil, ← hplans, compile_eq_ok h, assemble]

theorem filter_isDuplicate_warningsAt (s : Ruleset) (m : Mapping) (p : Rule × Nat) :
    (s.warningsAt m p).filter (·.isDuplicate) =
      if s.place? p.1.code = some p.2 then [] else [p.1.duplicate] := by
  have hown : (p.1.ownWarnings m).filter (·.isDuplicate) = [] :=
    List.filter_eq_nil_iff.2 fun w hw => Bool.eq_false_iff.1 (Rule.isDuplicate_ownWarnings hw)
  rw [Ruleset.warningsAt, List.filter_append, hown, List.append_nil]
  split
  · rfl
  · exact List.filter_cons_of_pos p.1.isDuplicate_duplicate

/-- **The rules that cannot be found are warned of.** A code leads to the first rule that has it; of
any other one it is said first that its code is taken, and nothing else is said in these words. -/
theorem compile_warns_of_hidden (h : compile rules code scope m = .ok s) :
    (∀ c, s.rule? c = (rules.find? (·.code = c)).map fun r => (r.plan m).compiled) ∧
    (∀ c, s.rule? c = (s.place? c).bind fun i => s.rules[i]?) ∧
    s.warnings = (scopeWarnings m scope).map .general ++ rules.zipIdx.flatMap (fun p =>
      (if s.place? p.1.code = some p.2 then [] else [p.1.duplicate]) ++ p.1.ownWarnings m) ∧
    s.warnings.filter (·.isDuplicate) =
      (rules.zipIdx.filter fun p => ¬ s.place? p.1.code = some p.2).map fun p => p.1.duplicate := by
  refine ⟨rule?_of_compile h, s.rule?_eq_bind, warnings_of_compile h, ?_⟩
  have hscope :
      ((scopeWarnings m scope).map CompilationWarning.general).filter (·.isDuplicate) = [] :=
    List.filter_eq_nil_iff.2 fun w hw => Bool.eq_false_iff.1 (isDuplicate_scopeWarnings hw)
  rw [warnings_of_compile h, List.filter_append, hscope, List.nil_append, List.filter_flatMap]
  simp only [filter_isDuplicate_warningsAt]
  exact flatMap_eq_map_filter (fun p : Rule × Nat => s.place? p.1.code = some p.2)
    (fun p => p.1.duplicate) _

end Compile

/-- Two names of one code, and a rule between them. -/
theorem oldCows_warned_of :
    let rules := [Rule.named "Old cows", .named "Goats", .named "old-cows"]
    ∃ s, compile rules "HERD" "HERDERS" herdMapping = .ok s ∧
      s.rule? "OLD_COWS" = some ((Rule.named "Old cows").plan herdMapping).compiled ∧
      s.rule? "PIGS" = none ∧
      s.warnings.filter (·.isDuplicate) = [(Rule.named "old-cows").duplicate] ∧
      (Rule.named "old-cows").duplicate.message =
        "Duplicate rule code 'OLD_COWS' (rule 'old-cows')" := by
  intro rules
  have hcompiled := compile_of_check rules "HERD" "HERDERS" herdMapping_usable.check
  obtain ⟨hfind, -, -, hduplicates⟩ := compile_warns_of_hidden hcompiled
  refine ⟨_, hcompiled, (hfind "OLD_COWS").trans ?_, (hfind "PIGS").trans ?_,
    hduplicates.trans ?_, by decide⟩
  · have hfirst : rules.find? (·.code = "OLD_COWS") = some (Rule.named "Old cows") := by
      decide +kernel
    rw [hfirst]
    rfl
  · have hnone : rules.find? (·.code = "PIGS") = none := by decide +kernel
    rw [hnone]
    rfl
  · decide +kernel

end Eligibility
