import Eligibility.Proofs.Plan.Quotation
import Eligibility.Proofs.Plan.Subject
import Eligibility.Proofs.Plan.Uses
import Eligibility.Proofs.Ruleset.Clauses
import Eligibility.Proofs.Ruleset.Counts
import Eligibility.Proofs.Sql.Pattern

/-!
# Filters of comparisons

The filter of a comparison is the test of its subject, by itself or inside a search for rows. An
operand that cannot be written gives a filter that is false.

* `Operator.Takes`: the operands that an operator has a use for;
* `FilterText`, `Mapping.ValueText`: whole filters, and texts that stand for values;
* **`Comparison.filter_written`**: a filter is whole or warned of, an empty list aside;
* **`Comparison.pattern_means`**: a pattern finds the texts that the operator speaks of.
-/

namespace Eligibility

open Sql

/-! ## Operands -/

/-- The operands that an operator has a use for. -/
def Operator.Takes (op : Operator) (operand : Operand) : Prop :=
  match op with
  | isEmpty | isNotEmpty => True
  | between => ∃ low high, operand = .range low high
  | isIn => ∃ vs, operand = .list vs
  | _ => ∃ v, operand = .single v

theorem Operator.isSome_test? {op : Operator} {operand : Operand} :
    (op.test? operand).isSome = true ↔ op.Takes operand := by
  cases op <;> cases operand <;> simp [test?, Takes, relation?]

/-! ## Texts -/

/-- A text that stands for a value: a text in quotes, a number with or without a sign, a truth value
of the schema, or the column of the base row that a word names. -/
inductive Mapping.ValueText (m : Mapping) : String → Prop where
  | quoted (s : String) : m.ValueText (quote s)
  | number {t n : String} (h : tokens t.toList = some [.number n]) : m.ValueText t
  | negative {t n : String} (h : tokens t.toList = some [.symbol "-", .number n]) : m.ValueText t
  | truth (b : Bool) : m.ValueText (if b then m.schema.trueLiteral else m.schema.falseLiteral)
  | column {id : String} {c : Column} (h : m.wordColumn? id = some c) : m.ValueText c.text

/-- What is written for a value stands for it, if the value is no infinity and no undefined
number. -/
theorem Mapping.literal_valueText (m : Mapping) {v : Value}
    (hv : ∀ x, v = .float x → x.isFinite = true) : m.ValueText (m.literal v).text := by
  cases v with
  | int n =>
    have ht := (shows_int n.toInt).1.tokens
    rw [intItems] at ht
    split at ht
    · exact .negative ht
    · exact .number ht
  | float x =>
    cases x with
    | finite negative count h =>
      obtain ⟨n, hn⟩ := writes_finite negative count h
      have ht := hn.tokens
      cases negative with
      | false => exact .number ht
      | true => exact .negative ht
    | infinite negative => cases hv _ rfl
    | nan => cases hv _ rfl
  | bool b =>
    cases b with
    | false => exact .truth false
    | true => exact .truth true
  | string s => exact .quoted s
  | identifier id =>
    rw [Mapping.literal]
    cases h : m.wordColumn? id with
    | none => exact .quoted id
    | some c => exact .column h

/-- A whole filter of a column, with values whose texts are `lit`. -/
inductive FilterText (lit : String → Prop) (column : String) : String → Prop where
  | compare (r : Relation) {t : String} (h : lit t) :
      FilterText lit column (column ++ " " ++ r.text ++ " " ++ t)
  | like (before after : Bool) (s : String) :
      FilterText lit column (column ++ " " ++ likeText before after s)
  | between {low high : String} (hlow : lit low) (hhigh : lit high) :
      FilterText lit column (column ++ " BETWEEN " ++ low ++ " AND " ++ high)
  | isIn {t : String} {ts : List String} (h : ∀ u ∈ t :: ts, lit u) :
      FilterText lit column (column ++ " IN (" ++ ", ".intercalate (t :: ts) ++ ")")
  | isNotIn {t : String} {ts : List String} (h : ∀ u ∈ t :: ts, lit u) :
      FilterText lit column (column ++ " NOT IN (" ++ ", ".intercalate (t :: ts) ++ ")")
  | isNull : FilterText lit column (column ++ " IS NULL")
  | isNotNull : FilterText lit column (column ++ " IS NOT NULL")
  | empty : FilterText lit column ("(" ++ column ++ " IS NULL OR " ++ column ++ " = '')")
  | filled : FilterText lit column ("(" ++ column ++ " IS NOT NULL AND " ++ column ++ " <> '')")

/-- A test is written whole, if it is not one for a value of an empty list. -/
theorem Test.filterText {lit : String → Prop} (m : Mapping) {test : Test} (h : test ≠ .oneOf [])
    (hlit : ∀ v ∈ test.literals, lit (m.literal v).text) (t : Term) (nullOnly negated : Bool) :
    FilterText lit t.text (test.predicate m t nullOnly negated).text := by
  have hquote : (Term.quoted "").text = "''" := by decide +kernel
  cases test with
  | empty =>
    cases nullOnly with
    | true => exact .isNull
    | false =>
      have htext : "(" ++ (t.text ++ " IS NULL" ++ " OR " ++
          (t.text ++ " " ++ "=" ++ " " ++ (Term.quoted "").text)) ++ ")" =
            "(" ++ t.text ++ " IS NULL OR " ++ t.text ++ " = '')" := by
        rw [hquote, ← String.toList_inj]
        simp
      exact (congrArg (FilterText _ t.text) htext).mpr .empty
  | filled =>
    cases nullOnly with
    | true => exact .isNotNull
    | false =>
      have htext : "(" ++ (t.text ++ " IS NOT NULL" ++ " AND " ++
          (t.text ++ " " ++ "<>" ++ " " ++ (Term.quoted "").text)) ++ ")" =
            "(" ++ t.text ++ " IS NOT NULL AND " ++ t.text ++ " <> '')" := by
        rw [hquote, ← String.toList_inj]
        simp
      exact (congrArg (FilterText _ t.text) htext).mpr .filled
  | between low high =>
    exact .between (hlit low List.mem_cons_self)
      (hlit high (List.mem_cons_of_mem _ List.mem_cons_self))
  | oneOf vs =>
    cases vs with
    | nil => exact absurd rfl h
    | cons v vs =>
      have hall : ∀ u ∈ ((v :: vs).map m.literal).map Term.text, lit u := by
        intro u hu
        obtain ⟨w, hw, rfl⟩ := List.mem_map.1 (List.map_map ▸ hu)
        exact hlit w hw
      cases negated with
      | false => exact .isIn hall
      | true => exact .isNotIn hall
  | like before after s => exact .like before after s
  | relation r v => exact .compare r (hlit v List.mem_cons_self)

/-! ## Warnings of leaves -/

theorem mem_planWarnings_of_mem (taken : List String) {ps : List RulePlan} {p : RulePlan}
    (hp : p ∈ ps) {w : Position × PlanWarning} (hw : w ∈ p.warnings) :
    ⟨some p.rule.code, w.1, w.2.message⟩ ∈ planWarnings taken ps := by
  induction ps generalizing taken with
  | nil => cases hp
  | cons q ps ih =>
    rw [planWarnings, List.mem_append, List.mem_append]
    rcases List.mem_cons.1 hp with rfl | hp
    · exact .inl (.inr (List.mem_map.2 ⟨w, hw, rfl⟩))
    · exact .inr (ih _ hp)

theorem Rule.mem_warnings_of_leaf {m : Mapping} {r : Rule} {l : Leaf} (hl : l ∈ r.leaves)
    {w : PlanWarning} (hw : w ∈ (l.plan m false).warnings) :
    (l.position, w) ∈ (r.plan m).warnings := by
  obtain ⟨c, hc, hl⟩ := Rule.mem_leaves.1 hl
  rw [plan, hc]
  exact List.mem_append_left _ (List.mem_flatMap.2 ⟨l, hl, List.mem_map.2 ⟨w, hw, rfl⟩⟩)

/-- A warning of a leaf is one of the ruleset, at the place of the leaf. -/
theorem compile_warns {rules : List Rule} {code scope : String} {m : Mapping} {s : Ruleset}
    (h : compile rules code scope m = .ok s) {r : Rule} (hr : r ∈ rules) {l : Leaf}
    (hl : l ∈ r.leaves) {w : PlanWarning} (hw : w ∈ (l.plan m false).warnings) :
    ⟨some r.code, l.position, w.message⟩ ∈ s.warnings := by
  have hp := mem_planWarnings_of_mem [] (List.mem_map_of_mem hr)
    (Rule.mem_warnings_of_leaf hl hw)
  rw [Rule.rule_plan] at hp
  rw [compile_eq_ok h]
  exact List.mem_append_right _ hp

/-! ## Whole filters -/

namespace Comparison

/-- The list that the comparison looks in has nothing in it. -/
def ListsNothing (c : Comparison) : Prop := c.op = .isIn ∧ c.operand = .list []

theorem test?_eq_oneOf_nil {c : Comparison} (h : c.test? = some (.oneOf [])) : c.ListsNothing := by
  unfold test? Operator.test? at h
  split at h
  -- lists
  case h_4 hop hoperand => cases h; exact ⟨hop, hoperand⟩
  -- relations
  case h_8 =>
    obtain ⟨r, -, h⟩ := Option.map_eq_some_iff.1 h
    cases h
  all_goals cases h

theorem text_oneOf_nil (m : Mapping) (t : Term) (nullOnly negated : Bool) :
    ((Test.oneOf []).predicate m t nullOnly negated).text =
      t.text ++ (if negated then " NOT IN ()" else " IN ()") := by
  have hlist (keyword : String) : t.text ++ keyword ++ Term.listText [] ++ ")" =
      t.text ++ (keyword ++ ")") := by
    have hnil : Term.listText [] = "" := rfl
    rw [hnil, String.append_empty, String.append_assoc]
  cases negated with
  | false => exact hlist " IN ("
  | true => exact hlist " NOT IN ("

theorem malformedOperand_notMem_fieldWarnings (m : Mapping) (c : Comparison) :
    .malformedOperand c.op c.field ∉ c.fieldWarnings m :=
  fun h => nomatch fieldObjection_of_fieldWarnings h

/-- **A filter is written whole, or it is false and warned of.** But a list of nothing gives an
empty list and no warning, and an infinite or undefined number is written as a word. -/
theorem filter_written {rules : List Rule} {code scope : String} {m : Mapping} {out : Ruleset}
    (h : compile rules code scope m = .ok out) {r : Rule} (hr : r ∈ rules) {c : Comparison}
    (hc : .comparison c ∈ r.leaves) (hfield : ∀ table d, m.resolve? c.field ≠ some (.grid table d))
    (negated : Bool) : ∃ (s : Subject) (filter : Predicate), c.subject? m = some s ∧
      (c.plan m negated).predicate = s.around m negated filter ∧
      (¬ c.op.Takes c.operand → filter.text = "1 = 0" ∧
        ⟨some r.code, c.position, (PlanWarning.malformedOperand c.op c.field).message⟩ ∈
          out.warnings) ∧
      (c.op.Takes c.operand → ¬ c.ListsNothing →
        FilterText (fun t => ∃ v ∈ c.operand.values, t = (m.literal v).text) s.term.text
          filter.text) ∧
      (∀ v ∈ c.operand.values, (∀ x, v = .float x → x.isFinite = true) →
        m.ValueText (m.literal v).text) ∧
      (c.ListsNothing →
        filter.text =
          s.term.text ++ (if negated && s.table.isNone then " NOT IN ()" else " IN ()") ∧
        .malformedOperand c.op c.field ∉ (c.plan m negated).warnings) := by
  obtain ⟨s, hs⟩ := exists_subject hfield
  refine ⟨s, (s.filter m c negated).predicate, hs, by rw [plan_of_subject hs], fun hop => ?_,
    fun hop hlist => ?_, fun v _ hv => m.literal_valueText hv, fun hlist => ?_⟩
  · have htest : c.test? = none :=
      Option.not_isSome_iff_eq_none.1 (mt Operator.isSome_test?.1 hop)
    constructor
    · rw [Subject.filter, planOn, htest]
      rfl
    · refine compile_warns h hr hc ?_
      change _ ∈ (c.plan m false).warnings
      rw [plan_of_subject hs, Subject.filter, planOn, htest]
      exact List.mem_append_right _ List.mem_cons_self
  · obtain ⟨test, htest⟩ := Option.isSome_iff_exists.1 (Operator.isSome_test?.2 hop)
    have hne : test ≠ .oneOf [] := fun e => hlist (test?_eq_oneOf_nil (e ▸ htest))
    rw [Subject.filter, planOn, test?, htest]
    refine Test.filterText m hne (fun v hv => ⟨v, ?_, rfl⟩) s.term s.nullOnly _
    rcases Operator.literals_test? htest with hnil | hvalues
    · rw [hnil] at hv
      cases hv
    · exact hvalues ▸ hv
  · have htest : c.test? = some (.oneOf []) := by rw [test?, hlist.1, hlist.2]; rfl
    constructor
    · rw [Subject.filter, planOn, htest]
      exact text_oneOf_nil m s.term s.nullOnly _
    · rw [plan_of_subject hs, Subject.filter, planOn, htest, List.append_nil]
      exact malformedOperand_notMem_fieldWarnings m c

theorem herdMapping_age :
    herdMapping.resolve? "age" = some (.base "c_age" (.plain "age" .number)) := by
  rfl

/-- No text is contained in a list. -/
theorem ageContainsList_written :
    let c : Comparison := ⟨"age", .contains, .list [], ⟨2, 8⟩⟩
    let r : Rule := { Rule.named "Old" with condition := some (.leaf (.comparison c)) }
    ∃ out, compile [r] "RS" "HERDERS" herdMapping = .ok out ∧
      ⟨some r.code, ⟨2, 8⟩, "Operator 'CONTAINS' has a malformed operand on field 'age'"⟩ ∈
        out.warnings := by
  intro c r
  have h := compile_of_check [r] "RS" "HERDERS" (m := herdMapping) rfl
  have hfield : ∀ table d, herdMapping.resolve? c.field ≠ some (.grid table d) := by
    intro table d hgrid
    cases herdMapping_age.symm.trans hgrid
  obtain ⟨s, filter, -, -, hwarned, -⟩ :=
    filter_written h List.mem_cons_self (c := c) List.mem_cons_self hfield false
  exact ⟨_, h, (hwarned (by rintro ⟨v, hv⟩; cases hv)).2⟩

/-- A list of nothing is no whole filter of the age, as long as values are written as something. -/
theorem inNothing_not_filterText : ¬ FilterText (· ≠ "") "b.c_age" "b.c_age IN ()" := by
  generalize htext : "b.c_age IN ()" = text
  have htext := congrArg String.toList htext
  intro h
  cases h with
  | compare r ht => cases r <;> simp [Relation.text] at htext
  | like before after s =>
    dsimp only [likeText] at htext
    split at htext <;> simp [toString] at htext
  | between hlow hhigh => simp at htext
  | @isIn t ts ht =>
    cases ts with
    | nil =>
      refine ht t List.mem_cons_self ?_
      simpa using htext
    | cons u us =>
      have hlength := congrArg List.length htext
      simp at hlength
      omega
  | isNotIn ht => simp at htext
  | isNull => simp at htext
  | isNotNull => simp at htext
  | empty => simp at htext
  | filled => simp at htext

/-- The age is one of no numbers: the filter has nothing where a value has to stand, and nothing is
warned of. -/
theorem ageInNothing_unwritten :
    let c : Comparison := ⟨"age", .isIn, .list [], ⟨2, 8⟩⟩
    let r : Rule := { Rule.named "Old" with condition := some (.leaf (.comparison c)) }
    ∃ out, compile [r] "RS" "HERDERS" herdMapping = .ok out ∧
      out.rules.map (·.whereClause) = ["b.c_age IN ()"] ∧ out.warnings = [] ∧
      ¬ FilterText (· ≠ "") "b.c_age" "b.c_age IN ()" := by
  intro c r
  exact ⟨_, compile_of_check [r] "RS" "HERDERS" (m := herdMapping) rfl, by decide +kernel,
    by decide +kernel, inNothing_not_filterText⟩

/-! ## Patterns -/

/-- A pattern operator leaves room on the sides that it names. -/
theorem test?_of_isPattern {c : Comparison} (hop : c.op.isPattern = true) {v : Value}
    (hv : c.operand = .single v) : ∃ before after, c.test? = some (.like before after v.plain) ∧
      (c.op = .contains → before = true ∧ after = true) ∧
      (c.op = .startsWith → before = false ∧ after = true) ∧
      (c.op = .endsWith → before = true ∧ after = false) := by
  rw [test?, hv]
  generalize c.op = op at hop ⊢
  cases op with
  | contains => exact ⟨true, true, rfl, by decide⟩
  | startsWith => exact ⟨false, true, rfl, by decide⟩
  | endsWith => exact ⟨true, false, rfl, by decide⟩
  | _ => exact absurd hop (by decide)

/-- **A pattern finds what its operator speaks of**, read as SQL reads it and whatever characters
the value has. -/
theorem pattern_means {m : Mapping} {c : Comparison} (hop : c.op.isPattern = true) {v : Value}
    (hv : c.operand = .single v) (hfield : ∀ table d, m.resolve? c.field ≠ some (.grid table d))
    (negated : Bool) : ∃ (s : Subject) (filter : Predicate) (clause : String) (ts : List Sql.Token)
      (test : String → Bool),
      c.subject? m = some s ∧ (c.plan m negated).predicate = s.around m negated filter ∧
      filter.text = s.term.text ++ " " ++ clause ∧
      tokens clause.toList = some ts ∧ likeTest? ts = some test ∧ ∀ u,
        (c.op = .contains → (test u = true ↔ v.plain.toList <:+: u.toList)) ∧
        (c.op = .startsWith → (test u = true ↔ v.plain.toList <+: u.toList)) ∧
        (c.op = .endsWith → (test u = true ↔ v.plain.toList <:+ u.toList)) := by
  obtain ⟨s, hs⟩ := exists_subject hfield
  obtain ⟨before, after, htest, hsides⟩ := test?_of_isPattern hop hv
  obtain ⟨ts, test, hts, hlike, hmeans⟩ := likeTest?_likeText before after v.plain
  refine ⟨s, (s.filter m c negated).predicate, likeText before after v.plain, ts, test, hs,
    by rw [plan_of_subject hs], ?_, hts, hlike, fun u => ⟨fun h => ?_, fun h => ?_, fun h => ?_⟩⟩
  · rw [Subject.filter, planOn, htest]
    rfl
  · obtain ⟨rfl, rfl⟩ := hsides.1 h
    rw [hmeans, surrounded_inside]
  · obtain ⟨rfl, rfl⟩ := hsides.2.1 h
    rw [hmeans, surrounded_atStart]
  · obtain ⟨rfl, rfl⟩ := hsides.2.2 h
    rw [hmeans, surrounded_atEnd]

/-- Every character of `5%_!` after the first has a meaning of its own in a pattern. -/
theorem agePattern_means :
    let c : Comparison := ⟨"age", .contains, .single (.string "5%_!"), {}⟩
    ∃ (s : Subject) (filter : Predicate) (clause : String) (ts : List Sql.Token)
      (test : String → Bool),
      c.subject? herdMapping = some s ∧
      (c.plan herdMapping false).predicate = s.around herdMapping false filter ∧
      filter.text = s.term.text ++ " " ++ clause ∧
      tokens clause.toList = some ts ∧ likeTest? ts = some test ∧
      ∀ u, test u = true ↔ "5%_!".toList <:+: u.toList := by
  intro c
  have hfield : ∀ table d, herdMapping.resolve? c.field ≠ some (.grid table d) := by
    intro table d hgrid
    cases herdMapping_age.symm.trans hgrid
  obtain ⟨s, filter, clause, ts, test, hs, hfilter, hclause, hts, htest, hmeans⟩ :=
    pattern_means (c := c) rfl rfl hfield false
  exact ⟨s, filter, clause, ts, test, hs, hfilter, hclause, hts, htest, fun u => (hmeans u).1 rfl⟩

end Comparison

end Eligibility
