import Eligibility.Proofs.Script.Grammar
import Eligibility.Script.Report

/-!
# Reading back a script of one rule

* `ruleText`, `scan_ruleText`: the text of a rule that has a name and a condition, and its pieces;
* `readSettings_when`, `readBlock_when`: what its block sets;
* **`ofText_ruleText`**: its report has that rule;
* **`Condition.ofText_text`**: a condition is read back from its text.
-/

namespace Eligibility

open Text TokenKind

/-! ## The text -/

/-- A rule with a name and a condition. -/
def ruleText (name condition : String) : String :=
  "RULE " ++ (Value.string name).text ++ "\nWHEN " ++ condition

/-- What stands in front of the condition. -/
def headerPieces (name : String) : List Piece :=
  [(.rule, "RULE"), (.string, (Value.string name).text), (.newline, "\n"), (.clause .when, "WHEN")]

theorem scan_ruleText {name : String} (hn : IsQuotable name.toList) {c : Condition}
    (h : c.IsWritable) : scan (ruleText name c.text).toList = headerPieces name ++ c.pieces := by
  have hsplit : (ruleText name c.text).toList = "RULE".toList ++ ' ' ::
      ((Value.string name).text.toList ++ '\n' :: ("WHEN".toList ++ ' ' :: c.text.toList)) := by
    simp [ruleText]
  have hrule : IsKeyword "RULE" .rule := by decide +kernel
  have hwhen : IsKeyword "WHEN" (.clause .when) := by decide +kernel
  have hcondition : scan c.text.toList = c.pieces := by
    have hend : scan (c.text.toList ++ []) = c.pieces ++ scan [] :=
      Condition.scan_text h breaks_nil (calm_of_head rfl)
    rwa [List.append_nil, scan_nil, List.append_nil] at hend
  rw [hsplit, scan_keyword hrule (breaks_space _), scan_space, scan_string hn,
    scan_newline, scan_keyword hwhen (breaks_space _), scan_space, hcondition]
  rfl

theorem map_piece_tokenize (s : String) : (tokenize s).tokens.map Token.piece = scan s.toList :=
  map_piece_tokensFrom _ _

/-! ## The block -/

section Block

variable {ts : List Token} {c : Condition}

theorem readSettings_nil (h : ts = []) :
    Gives (readSettings ts) (· = []) [] := by
  subst h
  rw [readSettings]
  exact gives_ok rfl rfl

theorem readSettings_when (hb : c.ReadBack) {b s : String}
    (ht : ts.map Token.piece = (.newline, b) :: (.clause .when, s) :: c.pieces) :
    Gives (readSettings ts) (fun l => ∃ d, l = [.condition d] ∧ c.Same d) [] := by
  have hclause (t : Token) (ht : t.piece = (.clause .when, s)) :
      ∃ a, t.clause? = some a ∧ a = .when := by
    have hk : t.kind = .clause .when := congrArg Prod.fst ht
    exact ⟨_, by rw [Token.clause?, hk], rfl⟩
  obtain ⟨⟨clause, rest, hlt⟩, hw, hclause, hrest⟩ := next?_newline ht nofun hclause
  cases hclause
  rw [readSettings, hw]
  have hstart : dropNewlines rest = rest := by
    have := c.started_pieces []
    rw [List.append_nil] at this
    exact dropNewlines_of_started hrest this
  have hread : Gives (readSetting .when rest) (fun a => ∃ d, a = .condition d ∧ c.Same d) [] := by
    rw [readSetting, if_pos rfl, readSettingValue]
    have hdisjunction : Gives (readOr false none (dropNewlines rest)) c.Same [] := by
      refine hb.disjunction.gives nofun ?_
      rw [hstart, hrest, List.append_nil]
    refine hdisjunction.bind fun d hd hds => ?_
    exact gives_ok ⟨_, rfl, hd⟩ hds
  refine hread.bind fun a ha has => ?_
  obtain ⟨d, hd, hsame⟩ := ha
  refine (readSettings_nil (List.map_eq_nil_iff.1 has)).bind fun more hmore hms => ?_
  refine gives_ok ⟨d, ?_, hsame⟩ hms
  change a.value :: more.value = _
  rw [hd, hmore]

theorem readBlock_when (hb : c.ReadBack) {name : String} (hn : IsQuotable name.toList)
    (start : Token) {b s : String}
    (ht : ts.map Token.piece = (.string, (Value.string name).text) :: (.newline, b) ::
      (.clause .when, s) :: c.pieces) :
    Gives (readBlock start ts)
      (fun r => r.name = name ∧ ∃ d, r.condition = some d ∧ c.Same d) [] := by
  have hname (t : Token) (ht : t.piece = (.string, (Value.string name).text)) :
      ∃ a, t.string? = some a ∧ a = name := by
    have hk : t.kind = .string := congrArg Prod.fst ht
    refine ⟨_, by rw [Token.string?, if_pos hk], ?_⟩
    exact content_string hk (congrArg Prod.snd ht) hn.2
  refine (expect_gives ht nofun hname).bind fun n hnv hns => ?_
  refine (readSettings_when hb hns).bind fun body hbody hbs => ?_
  obtain ⟨d, hd, hsame⟩ := hbody
  refine gives_ok ?_ hbs
  dsimp only
  rw [hd]
  exact ⟨hnv, d, rfl, hsame⟩

end Block

/-! ## The report -/

theorem readItems_nil : readItems [] = ([], none) := by
  rw [readItems]; rfl

theorem readItems_rule {ts : List Token} {s : String} {ps : List Piece} {P : Rule → Prop}
    (ht : ts.map Token.piece = (.rule, s) :: ps)
    (hb : ∀ start us, us.map Token.piece = ps → Gives (readBlock start us) P []) :
    ∃ r, readItems ts = ([.rule r], none) ∧ P r := by
  obtain ⟨t, hnext, ht, hrest⟩ :=
    next?_eq_some true ht nofun fun t ht => ⟨t, rfl, congrArg Prod.fst ht⟩
  obtain ⟨r, hr, hp, hs⟩ := hb t.value t.rest hrest
  have hk : t.value.kind = .rule := ht
  refine ⟨r.value, ?_, hp⟩
  rw [readItems, hnext]
  dsimp only
  rw [if_pos hk, hr]
  dsimp only
  rw [List.map_eq_nil_iff.1 hs, readItems_nil]

/-- A script of one rule is valid and has the rule. -/
theorem ofText_ruleText {name : String} (hn : IsQuotable name.toList) {c : Condition}
    (hg : c.Grammatical) (hw : c.IsWritable) :
    ∃ r d, Report.ofText (ruleText name c.text) = ⟨[], .ok [r]⟩ ∧ r.name = name ∧
      r.condition = some d ∧ c.Same d := by
  have hpieces : (tokenize (ruleText name c.text)).tokens.map Token.piece =
      headerPieces name ++ c.pieces := by
    rw [map_piece_tokenize, scan_ruleText hn hw]
  obtain ⟨r, hr, hname, d, hd, hsame⟩ := readItems_rule hpieces fun start us hus =>
    readBlock_when (Condition.readBack hg hw) hn start hus
  refine ⟨r, d, ?_, hname, hd, hsame⟩
  have hblank : isBlankText (ruleText name c.text) = false := by
    simp [isBlankText, ruleText, isBlank]
  rw [Report.ofText, hblank, if_neg Bool.false_ne_true, Report.ofTokens, hr]
  simp [Item.warning?, Item.rule?, hd]

namespace Condition

/-- A condition is read back from its text: the script is valid, and its rule has the condition up
to places. -/
theorem ofText_text {c : Condition} (hg : c.Grammatical) (hw : c.IsWritable) :
    (Report.ofText ("RULE \"R\"\nWHEN " ++ c.text)).isValid = true ∧
      ∃ r d, (Report.ofText ("RULE \"R\"\nWHEN " ++ c.text)).rules = [r] ∧
        r.condition = some d ∧ d.unplaced = c.unplaced := by
  have hname : IsQuotable "R".toList := by decide
  have htext : "RULE \"R\"\nWHEN " ++ c.text = ruleText "R" c.text := rfl
  obtain ⟨r, d, hr, -, hd, hsame⟩ := ofText_ruleText hname hg hw
  rw [htext, hr]
  exact ⟨rfl, r, d, rfl, hd, hsame⟩

/-- A condition with a negated list, a group, a quoted quote and a negative number. -/
def winterCondition : Condition :=
  or
    (and
      (not (not (leaf (.comparison
        ⟨"herd.kind", .isIn, .list [.string "the \"old\" goat", .identifier "cow"], {}⟩))))
      (group (or
        (leaf (.comparison ⟨"frost", .between, .range (.int (-40)) (.int (-5)), {}⟩))
        (leaf (.call ⟨.hasAny, "herd", [.string "AND (", .bool true], none, {}⟩)))))
    (and
      (leaf (.call ⟨.sum, "herd.heads", [], some (.gte, .int 12), {}⟩))
      (not (leaf (.comparison ⟨"camp", .isNotEmpty, .none, {}⟩))))

theorem winterCondition_ofText :
    (Report.ofText ("RULE \"R\"\nWHEN " ++ winterCondition.text)).isValid = true ∧
      ∃ r d, (Report.ofText ("RULE \"R\"\nWHEN " ++ winterCondition.text)).rules = [r] ∧
        r.condition = some d ∧ d.unplaced = winterCondition.unplaced :=
  ofText_text (by decide) (by decide +kernel)

example : winterCondition.text =
    "NOT herd.kind NOT IN (\"the \\\"old\\\" goat\", cow) AND " ++
      "(frost BETWEEN -40 AND -5 OR HAS_ANY(herd, \"AND (\", YES)) OR " ++
      "SUM(herd.heads) >= 12 AND NOT camp IS NOT EMPTY" := by decide +kernel

end Condition

end Eligibility
