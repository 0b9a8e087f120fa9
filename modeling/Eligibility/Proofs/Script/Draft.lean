import Eligibility.Proofs.Script.CutOff
import Eligibility.Proofs.Script.Failure

/-!
# Reports that are written as a script is read

A report may be written while the script is read: a rule or a warning is added as soon as it is
known, and an error discards the rules.

* `Draft`, `Draft.pushItem`, `Draft.fail`, `Draft.read`: a report while it is written;
* `Draft.ofItems`, `Draft.pushItem_ofItems`, **`Draft.read_eq`**: what is written after each part,
  and after all of them;
* `Report.forall_rules`: what holds of every block holds of every rule;
* **`Report.ofText_coherent`**.
-/

namespace Eligibility

open Reader

/-! ## Writing a report -/

/-- A report while it is written. -/
structure Draft where
  isValid : Bool := true
  ruleCount : Nat := 0
  rules : List Rule := []
  summaries : List RuleSummary := []
  errors : List (Located Expected) := []
  warnings : List (Located Warning) := []

namespace Draft

def pushRule (d : Draft) (r : Rule) : Draft :=
  { d with
    rules := d.rules ++ [r]
    summaries := d.summaries ++ [r.summary]
    ruleCount := (d.rules ++ [r]).length }

def pushWarning (d : Draft) (w : Located Warning) : Draft :=
  { d with warnings := d.warnings ++ [w] }

/-- Add a part of the script. A rule is warned of before it is added. -/
def pushItem (d : Draft) : Item → Draft
  | .rule r =>
    (if r.condition.isNone then d.pushWarning ⟨⟨r.startLine, 1⟩, .noCondition r.name⟩
      else d).pushRule r
  | .stray t => d.pushWarning ⟨t.position, .strayToken t.text⟩

/-- An error discards the rules. -/
def fail (d : Draft) (e : Located Expected) : Draft :=
  { d with
    isValid := false
    ruleCount := 0
    rules := []
    summaries := []
    errors := d.errors ++ [e] }

/-- Read tokens that end at `finish`, part by part. -/
def read (finish : Position) (d : Draft) (ts : List Token) : Draft :=
  match next? true some ts with
  | none => d
  | some t =>
    have _ht := t.lt
    if t.value.kind = .rule then
      match readBlock t.value t.rest with
      | .error f => d.fail (Report.locate finish f)
      | .ok r =>
        have _hr := r.lt
        read finish (d.pushItem (.rule r.value)) r.rest
    else read finish (d.pushItem (.stray t.value)) t.rest
termination_by ts.length

/-- The report on a script as it is written. -/
def ofText (text : String) : Draft :=
  if Text.isBlankText text then {}
  else read (tokenize text).finish {} (tokenize text).tokens

end Draft

/-- The report when it is written. -/
def Report.draft (r : Report) : Draft :=
  ⟨r.isValid, r.rules.length, r.rules, r.summaries, r.error?.toList, r.warnings⟩

/-! ## What is written -/

namespace Draft

/-- What is written when some parts have been read. -/
def ofItems (items : List Item) : Draft where
  ruleCount := (items.filterMap Item.rule?).length
  rules := items.filterMap Item.rule?
  summaries := (items.filterMap Item.rule?).map Rule.summary
  warnings := items.filterMap Item.warning?

/-- **Every part adds its rule, if it is one, and its warning, if it has one.** -/
theorem pushItem_ofItems (items : List Item) (i : Item) :
    (ofItems items).pushItem i = ofItems (items ++ [i]) := by
  simp only [ofItems, List.filterMap_append, List.map_append]
  cases i with
  | stray t => simp [pushItem, pushWarning, Item.rule?, Item.warning?]
  | rule r =>
    cases hr : r.condition with
    | none => simp [pushItem, pushWarning, pushRule, Item.rule?, Item.warning?, hr]
    | some c => simp [pushItem, pushRule, Item.rule?, Item.warning?, hr]

/-- **All parts are added, and then the failure, if any.** -/
theorem read_eq (finish : Position) (items : List Item) (ts : List Token) :
    read finish (ofItems items) ts =
      (readItems ts).2.elim (ofItems (items ++ (readItems ts).1)) fun f =>
        (ofItems (items ++ (readItems ts).1)).fail (Report.locate finish f) := by
  generalize hd : ofItems items = d
  induction d, ts using read.induct generalizing items with
  | case1 d ts hnext =>
    rw [read, readItems, hnext, ← hd, List.append_nil]
    rfl
  | case2 d ts t ht hlt hk f hf =>
    rw [read, readItems, ht]
    simp only [hk, hf, if_true, ← hd, List.append_nil]
    rfl
  | case3 d ts t ht hlt hk r hr hlt' ih =>
    rw [read, readItems, ht]
    simp only [hk, hr, if_true]
    rw [ih (items ++ [.rule r.value]) (by rw [← hd, pushItem_ofItems]), List.append_assoc,
      List.singleton_append]
  | case4 d ts t ht hlt hk ih =>
    rw [read, readItems, ht]
    simp only [hk, if_false]
    rw [ih (items ++ [.stray t.value]) (by rw [← hd, pushItem_ofItems]), List.append_assoc,
      List.singleton_append]

/-- The report that is written on tokens is the report on them. -/
theorem read_tokens (s : TokenStream) :
    read s.finish {} s.tokens = (Report.ofTokens s).draft := by
  show read s.finish (ofItems []) s.tokens = _
  rw [read_eq, List.nil_append]
  unfold Report.ofTokens
  generalize readItems s.tokens = r
  obtain ⟨items, f⟩ := r
  cases f <;> rfl

/-- **The report that is written is the report on the script.** -/
theorem ofText_eq (text : String) : ofText text = (Report.ofText text).draft := by
  unfold ofText Report.ofText
  by_cases hblank : Text.isBlankText text = true
  · rw [if_pos hblank, if_pos hblank]
    rfl
  · rw [if_neg hblank, if_neg hblank, read_tokens]

end Draft

/-! ## The rules of a report -/

theorem applyAll_code (r : Rule) (ss : List Setting) : (r.applyAll ss).code = r.code :=
  applyAll_part (f := Rule.code) (fun s _ _ => by cases s <;> rfl) r

theorem readBlock_code {start : Token} {ts rest : List Token} {r : Rule}
    (h : of (readBlock start) ts = .ok (r, rest)) : r.code = ruleCode r.name := by
  obtain ⟨parts, -, rfl⟩ := readParts_ok h
  show ((Rule.named parts.1).applyAll parts.2).code =
    ruleCode ((Rule.named parts.1).applyAll parts.2).name
  rw [applyAll_code, applyAll_name]
  rfl

/-- What holds of every block that is read holds of every rule. -/
theorem Splits.forall_rules {P : Rule → Prop}
    (hP : ∀ start ts r rest, of (readBlock start) ts = .ok (r, rest) → P r) {ts : List Token}
    {items : List Item} {f : Option Failure} (h : Splits ts items f) :
    ∀ r ∈ items.filterMap Item.rule?, P r := by
  induction h with
  | done | fails => exact List.forall_mem_nil _
  | stray hbs hk hr h ih => exact ih
  | rule hbs hr hb h ih => exact List.forall_mem_cons.2 ⟨hP _ _ _ _ hb, ih⟩

namespace Report

theorem rules_cases (text : String) :
    (ofText text).rules = [] ∨ ∃ items f, Splits (tokenize text).tokens items f ∧
      (ofText text).rules = items.filterMap Item.rule? := by
  unfold ofText
  split
  · exact .inl rfl
  · unfold ofTokens
    have hsplits := splits_readItems (tokenize text).tokens
    generalize readItems (tokenize text).tokens = parts at hsplits ⊢
    obtain ⟨items, f⟩ := parts
    cases f with
    | none => exact .inr ⟨items, none, hsplits, rfl⟩
    | some f => exact .inl rfl

theorem forall_rules {P : Rule → Prop}
    (hP : ∀ start ts r rest, of (readBlock start) ts = .ok (r, rest) → P r) (text : String) :
    ∀ r ∈ (ofText text).rules, P r := by
  rcases rules_cases text with hnone | ⟨items, f, hsplits, hrules⟩
  · rw [hnone]
    exact List.forall_mem_nil _
  · rw [hrules]
    exact hsplits.forall_rules hP

/-- A rule that is read has the code of its name. -/
theorem code_of_mem_rules {text : String} {r : Rule} (hr : r ∈ (ofText text).rules) :
    r.code = ruleCode r.name :=
  forall_rules (P := fun r => r.code = ruleCode r.name) (fun _ _ _ _ => readBlock_code) text r hr

theorem rules_of_error {r : Report} {e : Located Expected} (h : r.error? = some e) :
    r.rules = [] := by
  obtain ⟨warnings, outcome⟩ := r
  cases outcome with
  | error e => rfl
  | ok rules => cases h

theorem draft_isValid_iff (r : Report) : r.draft.isValid = true ↔ r.draft.errors = [] := by
  unfold draft isValid
  cases r.error? <;> simp

theorem draft_head?_errors (r : Report) : r.draft.errors.head? = r.error? := by
  unfold draft
  cases r.error? <;> rfl

theorem draft_errors_length_le (r : Report) : r.draft.errors.length ≤ 1 := by
  unfold draft
  cases r.error? <;> simp

/-- A script that breaks the grammar has the warnings that it has when it is cut off in front of the
block in which it does so. -/
theorem ofText_cut {text : String} {e : Located Expected}
    (h : (ofText text).error? = some e) :
    ∃ before t after f, (tokenize text).tokens = before ++ t :: after ∧ t.kind = .rule ∧
      of (readBlock t) after = .error f ∧ e = locate (tokenize text).finish f ∧
      ∀ finish, (ofTokens ⟨before, finish⟩).isValid = true ∧
        (ofTokens ⟨before, finish⟩).warnings = (ofText text).warnings := by
  have htext := ofText_of_error h
  rw [htext, error?_ofTokens] at h
  obtain ⟨f, hf, rfl⟩ := Option.map_eq_some_iff.1 h
  have hsplits := splits_readItems (tokenize text).tokens
  rw [hf] at hsplits
  obtain ⟨before, t, after, hts, ht, hfail, hread⟩ := hsplits.cut
  refine ⟨before, t, after, f, hts, ht, hfail, rfl, fun finish => ⟨?_, ?_⟩⟩
  · rw [isValid_ofTokens, hread]
  · rw [htext, ofTokens, ofTokens, hread]

/-- **A report is coherent**, whether it is written at the end or part by part. With an error it has
no rules, and the warnings of the script cut off in front of the block that breaks the grammar. -/
theorem ofText_coherent (text : String) :
    Draft.ofText text = (ofText text).draft ∧
    ((Draft.ofText text).isValid = true ↔ (Draft.ofText text).errors = []) ∧
    (Draft.ofText text).errors.length ≤ 1 ∧
    (ofText text).error? = (Draft.ofText text).errors.head? ∧
    match (ofText text).error? with
    | some e =>
      (Draft.ofText text).rules = [] ∧ (Draft.ofText text).summaries = [] ∧
      (Draft.ofText text).ruleCount = 0 ∧
      ∃ before t after f, (tokenize text).tokens = before ++ t :: after ∧ t.kind = .rule ∧
        of (readBlock t) after = .error f ∧ e = locate (tokenize text).finish f ∧
        ∀ finish, (ofTokens ⟨before, finish⟩).isValid = true ∧
          (ofTokens ⟨before, finish⟩).warnings = (Draft.ofText text).warnings
    | none =>
      (Draft.ofText text).ruleCount = (Draft.ofText text).rules.length ∧
      (Draft.ofText text).summaries.length = (Draft.ofText text).rules.length ∧
      ∀ (i : Nat) (r : Rule), (Draft.ofText text).rules[i]? = some r →
        (Draft.ofText text).summaries[i]? =
          some ⟨r.name, ruleCode r.name, r.ruleType, r.condition.elim 0 fun c => c.leaves.length⟩ :=
    by
  rw [Draft.ofText_eq]
  refine ⟨rfl, draft_isValid_iff _, draft_errors_length_le _, (draft_head?_errors _).symm, ?_⟩
  cases he : (ofText text).error? with
  | some e =>
    have hrules := rules_of_error he
    exact ⟨hrules, congrArg (List.map Rule.summary) hrules, congrArg List.length hrules,
      ofText_cut he⟩
  | none =>
    refine ⟨rfl, List.length_map _, fun i r hr => ?_⟩
    have hcode := code_of_mem_rules (List.mem_of_getElem? hr)
    show ((ofText text).rules.map Rule.summary)[i]? = _
    rw [List.getElem?_map, show (ofText text).rules[i]? = some r from hr, ← hcode]
    rfl

end Report

end Eligibility
