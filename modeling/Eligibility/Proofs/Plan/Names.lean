import Eligibility.Proofs.Field.Plain
import Eligibility.Proofs.Plan.Condition

/-!
# Names in the predicates of conditions

The check of a mapping looks at the names that a schema and its fields hold. The names that an
unmapped id is written with are put together later, and nothing looks at those.

* `Predicate.names`: the tables, aliases and columns of a predicate;
* `Schema.conventionalNames`: the names that an unmapped id is written with;
* `Leaf.forall_names`, `Condition.forall_names`: every name is qualified or one of those;
* `Schema.HasNamePrefixes`, **`Condition.names_predicate`**: when all of them are qualified;
* `hyphenPrefix_accepted`: a mapping that passes its check and writes a column that is no name.
-/

namespace Eligibility

open Sql

/-! ## Names of predicates -/

namespace Sql

def Column.names (c : Column) : List String := [c.tableAlias, c.name]

def RowSource.names (s : RowSource) : List String := [s.table, s.rowAlias, s.foreignKey, s.baseKey]

def Aggregate.names : Aggregate → List String
  | countRows => []
  | count c | sum c | avg c | min c | max c => c.names

theorem Aggregate.names_eq (a : Aggregate) : a.names = a.columns.flatMap Column.names := by
  cases a <;> simp [names, columns]

def Term.names : Term → List String
  | column c => c.names
  | name s => [s]
  | aggregate a rows => a.names ++ rows.names
  | _ => []

/-- The tables, aliases and columns that a predicate names. -/
def Predicate.names : Predicate → List String
  | always | never => []
  | compare l _ t => l.names ++ t.names
  | isNull t | isNotNull t | like t _ _ _ => t.names
  | between t low high => t.names ++ (low.names ++ high.names)
  | isIn t ts | isNotIn t ts => t.names ++ ts.flatMap Term.names
  | rowExists rows => rows.names
  | rowExistsWhere rows filter => rows.names ++ filter.names
  | and p q | or p q => p.names ++ q.names
  | not p | paren p => p.names

end Sql

/-- The names that an unmapped id is written with: the id itself, the part before its first dot as a
table and the part behind it as a column. -/
def Schema.conventionalNames (s : Schema) (id : String) : List String :=
  match Text.cut? '.' id with
  | some (grid, child) => [id, s.tablePrefix ++ grid, s.columnPrefix ++ child]
  | none => [id, s.tablePrefix ++ id]

/-! ## Names of leaves -/

section Names

variable {m : Mapping} (hm : m.check = .ok ()) {P : String → Prop}
  (hP : ∀ s, isQualifiedName s.toList = true → P s)
include hm hP

theorem Mapping.forall_names_gridColumn {column : String} (hc : P column) :
    ∀ s ∈ (m.gridColumn column).names, P s :=
  have hgrid := hP _ (isQualifiedName_of_plain (checked_of_check hm).schema.gridAlias)
  List.forall_mem_cons.2 ⟨hgrid, List.forall_mem_singleton.2 hc⟩

theorem Mapping.forall_names_baseColumn {column : String} (hc : P column) :
    ∀ s ∈ (Column.mk m.schema.baseAlias column).names, P s :=
  have hbase := hP _ (isQualifiedName_of_plain (checked_of_check hm).schema.baseAlias)
  List.forall_mem_cons.2 ⟨hbase, List.forall_mem_singleton.2 hc⟩

theorem Mapping.forall_names_rows {table : String} (ht : P table) :
    ∀ s ∈ (m.rows table).names, P s := by
  have hschema := (checked_of_check hm).schema
  have hkey : isQualifiedName m.schema.keyExpression.toList = true := by
    rw [Schema.keyExpression, String.toList_append, String.toList_append, List.append_assoc]
    exact isQualifiedName_dotted hschema.baseAlias (isQualifiedName_of_plain hschema.keyColumn)
  intro s hs
  simp only [Mapping.rows, RowSource.names, List.mem_cons, List.not_mem_nil, or_false] at hs
  rcases hs with rfl | rfl | rfl | rfl
  · exact ht
  · exact hP _ (isQualifiedName_of_plain hschema.gridAlias)
  · exact hP _ (isQualifiedName_of_plain hschema.gridForeignKey)
  · exact hP _ hkey

theorem Mapping.forall_names_literal (v : Value) : ∀ s ∈ (m.literal v).names, P s := by
  cases v with
  | identifier id =>
    rw [Mapping.literal, Mapping.wordColumn?]
    split
    · rename_i column d hr
      exact forall_names_baseColumn hm hP
        (hP _ (isQualifiedName_of_plain ((checked_of_check hm).base hr)))
    · exact List.forall_mem_nil P
  | bool b => cases b <;> exact List.forall_mem_nil P
  | _ => exact List.forall_mem_nil P

theorem Mapping.forall_names_literals (vs : List Value) :
    ∀ s ∈ (vs.map m.literal).flatMap Term.names, P s := by
  intro s hs
  obtain ⟨t, ht, hs⟩ := List.mem_flatMap.1 hs
  obtain ⟨v, -, rfl⟩ := List.mem_map.1 ht
  exact forall_names_literal hm hP v s hs

theorem Test.forall_names (test : Test) {t : Term} (ht : ∀ s ∈ t.names, P s)
    (nullOnly negated : Bool) : ∀ s ∈ (test.predicate m t nullOnly negated).names, P s := by
  have hliteral := Mapping.forall_names_literal hm hP
  have hliterals := Mapping.forall_names_literals hm hP
  cases test with
  | empty => cases nullOnly <;> simpa [predicate, Predicate.names, Term.names] using ht
  | filled => cases nullOnly <;> simpa [predicate, Predicate.names, Term.names] using ht
  | between low high =>
    exact List.forall_mem_append.2 ⟨ht, List.forall_mem_append.2 ⟨hliteral low, hliteral high⟩⟩
  | oneOf vs =>
    cases negated
    · exact List.forall_mem_append.2 ⟨ht, hliterals vs⟩
    · exact List.forall_mem_append.2 ⟨ht, hliterals vs⟩
  | like before after s => exact ht
  | relation r v => exact List.forall_mem_append.2 ⟨ht, hliteral v⟩

theorem Comparison.forall_names_planOn (c : Comparison) {t : Term} (ht : ∀ s ∈ t.names, P s)
    (nullOnly negated : Bool) : ∀ s ∈ (c.planOn m t nullOnly negated).predicate.names, P s := by
  unfold planOn
  split
  · exact Test.forall_names hm hP _ ht nullOnly negated
  · exact nofun

omit hm hP in
theorem names_negatedIf (negated : Bool) (p : Predicate) :
    (Predicate.negatedIf negated p).names = p.names := by
  cases negated <;> rfl

theorem Comparison.forall_names_planOnGrid (c : Comparison) {table column : String} (ht : P table)
    (hc : P column) (nullOnly negated : Bool) :
    ∀ s ∈ (c.planOnGrid m table column nullOnly negated).predicate.names, P s := by
  have hcolumn := Mapping.forall_names_gridColumn hm hP hc
  unfold planOnGrid
  rw [names_negatedIf]
  exact List.forall_mem_append.2 ⟨Mapping.forall_names_rows hm hP ht,
    forall_names_planOn hm hP c (t := .column _) hcolumn nullOnly false⟩

theorem Comparison.forall_names {c : Comparison} {negated : Bool}
    (h : m.resolve? c.field = none → ∀ s ∈ m.schema.conventionalNames c.field, P s) :
    ∀ s ∈ (c.plan m negated).predicate.names, P s := by
  have hchecked := Mapping.checked_of_check hm
  change ∀ s ∈ (c.planRest m negated).predicate.names, P s
  unfold planRest
  split
  · rename_i column d hr
    have hcolumn := hP _ (isQualifiedName_of_plain (hchecked.base hr))
    exact forall_names_planOn hm hP c (t := .column _)
      (Mapping.forall_names_baseColumn hm hP hcolumn) _ _
  · rename_i table column d hr
    obtain ⟨ht, hc⟩ := hchecked.gridChild hr
    exact forall_names_planOnGrid hm hP c (hP _ ht) (hP _ (isQualifiedName_of_plain hc)) _ _
  · cases negated <;> exact nofun
  · rename_i hr
    have h := h hr
    unfold Schema.conventionalNames at h
    dsimp only
    split
    · rename_i table column hu
      obtain ⟨grid, child, hcut, htable, rfl⟩ := unknownChild?_eq_some.1 hu
      rw [hcut] at h
      exact forall_names_planOnGrid hm hP c (hP _ (hchecked.gridTable htable)) (h _ (by simp)) _ _
    · have hfield : P c.field := by
        split at h
        · exact h _ List.mem_cons_self
        · exact h _ List.mem_cons_self
      exact forall_names_planOn hm hP c (t := .name _)
        (fun s hs => List.mem_singleton.1 hs ▸ hfield) _ _

theorem FunctionCall.target?_names {f : FunctionCall}
    (h : m.resolve? f.target = none → ∀ s ∈ m.schema.conventionalNames f.target, P s)
    {t : CallTarget} (ht : f.target? m = some t) :
    P t.table ∧ ∀ c ∈ t.column, ∀ s ∈ c.names, P s := by
  have hchecked := Mapping.checked_of_check hm
  unfold target? at ht
  split at ht
  · rename_i table d hr
    cases ht
    exact ⟨hP _ (hchecked.grid hr), nofun⟩
  · rename_i table column d hr
    cases ht
    obtain ⟨htable, hcolumn⟩ := hchecked.gridChild hr
    refine ⟨hP _ htable, fun c hc => ?_⟩
    cases hc
    exact Mapping.forall_names_gridColumn hm hP (hP _ (isQualifiedName_of_plain hcolumn))
  · cases ht
  · rename_i hr
    have h := h hr
    unfold Schema.conventionalNames at h
    split at ht
    · rename_i grid child hcut
      cases ht
      rw [hcut] at h
      refine ⟨?_, fun c hc => ?_⟩
      · cases hg : m.gridTable? grid with
        | some table => exact hP _ (hchecked.gridTable hg)
        | none => exact h _ (by simp)
      · cases hc
        exact Mapping.forall_names_gridColumn hm hP (h _ (by simp))
    · rename_i hcut
      cases ht
      rw [hcut] at h
      exact ⟨h _ (by simp), nofun⟩

theorem FunctionCall.forall_names_planAggregate {f : FunctionCall} {t : CallTarget}
    (ht : P t.table) (hc : ∀ c ∈ t.column, ∀ s ∈ c.names, P s) :
    ∀ s ∈ (f.planAggregate m t).predicate.names, P s := by
  have hresult {a : Aggregate} (ha : aggregate? f.function t.column = some a) :
      ∀ s ∈ (Term.aggregate a (m.rows t.table)).names, P s := by
    refine List.forall_mem_append.2 ⟨?_, Mapping.forall_names_rows hm hP ht⟩
    rw [a.names_eq, columns_aggregate? ha]
    exact List.forall_mem_flatMap.2 fun c hmem => hc c (Option.mem_toList.1 hmem)
  have hplan := aggregatePlan_planAggregate m f t
  generalize f.planAggregate m t = p at hplan
  cases hplan with
  | noColumn | notComparable => exact nofun
  | compared ha =>
    exact List.forall_mem_append.2 ⟨hresult ha, Mapping.forall_names_literal hm hP _⟩
  | aboveZero ha => exact List.forall_mem_append.2 ⟨hresult ha, nofun⟩
  | there ha => exact hresult ha

omit hm hP in
theorem forall_names_all {ps : List Predicate} (h : ∀ p ∈ ps, ∀ s ∈ p.names, P s) :
    ∀ s ∈ (Predicate.all ps).names, P s :=
  Predicate.all_of_and (P := fun p => ∀ s ∈ p.names, P s) nofun
    (fun _ _ hp hq => List.forall_mem_append.2 ⟨hp, hq⟩) h

theorem FunctionCall.forall_names_planCheck {f : FunctionCall} {t : CallTarget} (ht : P t.table)
    (hc : ∀ c ∈ t.column, ∀ s ∈ c.names, P s) :
    ∀ s ∈ (f.planCheck m t).predicate.names, P s := by
  have hrows := Mapping.forall_names_rows hm hP ht
  have hhas {c : Column} (hcolumn : t.column = some c) (v : Value) :
      ∀ s ∈ (rowHas m t.table c v).names, P s :=
    List.forall_mem_append.2 ⟨hrows, List.forall_mem_append.2
      ⟨hc c hcolumn, Mapping.forall_names_literal hm hP v⟩⟩
  have hplan := checkPlan_planCheck m f t
  generalize f.planCheck m t = p at hplan
  cases hplan with
  | nothing | noColumn => exact nofun
  | row =>
    rw [names_negatedIf]
    exact hrows
  | filled hcolumn =>
    rw [names_negatedIf]
    exact List.forall_mem_append.2 ⟨hrows, hc _ hcolumn⟩
  | has _ hcolumn => exact hhas hcolumn _
  | hasAll _ hcolumn => exact forall_names_all (List.forall_mem_map.2 fun v _ => hhas hcolumn v)
  | oneOf _ hcolumn =>
    rw [names_negatedIf]
    exact List.forall_mem_append.2 ⟨hrows, List.forall_mem_append.2
      ⟨hc _ hcolumn, Mapping.forall_names_literals hm hP _⟩⟩

/-- The names in the predicate of a leaf are checked, unless its id is not mapped. -/
theorem Leaf.forall_names {l : Leaf} {negated : Bool}
    (h : m.resolve? l.id = none → ∀ s ∈ m.schema.conventionalNames l.id, P s) :
    ∀ s ∈ (l.plan m negated).predicate.names, P s := by
  cases l with
  | comparison c => exact Comparison.forall_names hm hP h
  | call f =>
    refine FunctionCall.predicate_plan (P := fun p => ∀ s ∈ p.names, P s) nofun
      (fun t ht => ?_) fun t ht => ?_
    · obtain ⟨htable, hcolumn⟩ := FunctionCall.target?_names hm hP h ht
      exact FunctionCall.forall_names_planAggregate hm hP htable hcolumn
    · obtain ⟨htable, hcolumn⟩ := FunctionCall.target?_names hm hP h ht
      exact FunctionCall.forall_names_planCheck hm hP htable hcolumn

omit hm hP in
theorem Condition.names_parenIf (b : Bool) (p : Predicate) : (parenIf b p).names = p.names := by
  cases b <;> rfl

theorem Condition.forall_names {c : Condition}
    (h : ∀ l ∈ c.leaves, m.resolve? l.id = none → ∀ s ∈ m.schema.conventionalNames l.id, P s) :
    ∀ s ∈ (c.predicate m).names, P s := by
  induction c with
  | leaf l => exact Leaf.forall_names hm hP (h l List.mem_cons_self)
  | and a b iha ihb =>
    obtain ⟨ha, hb⟩ := List.forall_mem_append.1 h
    rw [predicate, Predicate.names, names_parenIf, names_parenIf]
    exact List.forall_mem_append.2 ⟨iha ha, ihb hb⟩
  | or a b iha ihb =>
    obtain ⟨ha, hb⟩ := List.forall_mem_append.1 h
    exact List.forall_mem_append.2 ⟨iha ha, ihb hb⟩
  | not c ih =>
    rw [predicate]
    cases hlist : c.list? with
    | some l =>
      refine Leaf.forall_names (l := .comparison l) hm hP (h _ ?_)
      rw [leaves, (list?_eq_some hlist).2.1]
      exact List.mem_cons_self
    | none =>
      dsimp only
      rw [Predicate.names, names_parenIf]
      exact ih h
  | group c ih => exact ih h

end Names

/-! ## Qualified names -/

/-- Names may go on from both prefixes. -/
structure Schema.HasNamePrefixes (s : Schema) : Prop where
  column : isQualifiedName (s.columnPrefix.toList ++ ['_']) = true
  table : isQualifiedName (s.tablePrefix.toList ++ ['_']) = true

/-- Behind prefixes that names may go on from, a qualified id is written with qualified names. -/
theorem Schema.HasNamePrefixes.conventionalNames {s : Schema} (hs : s.HasNamePrefixes)
    {id : String} (hid : isQualifiedName id.toList = true) :
    ∀ n ∈ s.conventionalNames id, isQualifiedName n.toList = true := by
  have hprefixed {p a : String} (hp : isQualifiedName (p.toList ++ ['_']) = true)
      (ha : isQualifiedName a.toList = true) : isQualifiedName (p ++ a).toList = true := by
    rw [String.toList_append]
    exact isQualifiedName_prefixed hp ha
  unfold Schema.conventionalNames
  cases hcut : Text.cut? '.' id with
  | none =>
    exact List.forall_mem_cons.2 ⟨hid, List.forall_mem_singleton.2 (hprefixed hs.table hid)⟩
  | some p =>
    obtain ⟨grid, child⟩ := p
    obtain ⟨heq, hnot⟩ := cut?_spec hcut
    obtain ⟨hgrid, hchild⟩ := isQualifiedName_cut hnot (heq ▸ hid)
    exact List.forall_mem_cons.2 ⟨hid, List.forall_mem_cons.2
      ⟨hprefixed hs.table (isQualifiedName_of_plain hgrid),
        List.forall_mem_singleton.2 (hprefixed hs.column hchild)⟩⟩

/-- **The names that SQL is generated with** are qualified names, apart from those of unmapped ids.
These are qualified too where the prefixes of the schema and the segments of the id allow it. -/
theorem Condition.names_predicate {m : Mapping} (hm : m.check = .ok ()) {c : Condition}
    (hids : ∀ l ∈ c.leaves, IsIdentifier l.id ∧ isAscii l.id = true) :
    (∀ s ∈ (c.predicate m).names, isQualifiedName s.toList = true ∨
      ∃ l ∈ c.leaves, m.resolve? l.id = none ∧ s ∈ m.schema.conventionalNames l.id) ∧
    (m.schema.HasNamePrefixes →
      (∀ l ∈ c.leaves, m.resolve? l.id = none → hasDigitSegment l.id.toList = false) →
      ∀ s ∈ (c.predicate m).names, isQualifiedName s.toList = true) := by
  refine ⟨forall_names hm (fun _ => .inl) fun l hl hr s hs => .inr ⟨l, hl, hr, hs⟩,
    fun hprefixes hdigits => forall_names hm (fun _ => id) fun l hl hr => ?_⟩
  obtain ⟨hid, hascii⟩ := hids l hl
  exact hprefixes.conventionalNames (isQualifiedName_of_isIdentifier hid hascii (hdigits l hl hr))

/-- The prefix leads the first segment alone, and a later one may begin with a digit. -/
example :
    let c : Condition := .leaf (.call ⟨.count, "herd.kinds.0", [], none, {}⟩)
    "c_kinds.0" ∈ (c.predicate herdMapping).names ∧
      isQualifiedName "c_kinds.0".toList = false := by
  decide +kernel

/-- A herd whose children are not mapped, a grid that is not, and a field that is. -/
theorem unmappedHerd_names :
    let c : Condition :=
      .and (.leaf (.comparison ⟨"herd.breed", .eq, .single (.identifier "age"), {}⟩))
        (.leaf (.call ⟨.sum, "crops.area", [], none, {}⟩))
    herdMapping.check = .ok () ∧
      (∀ l ∈ c.leaves, IsIdentifier l.id ∧ isAscii l.id = true) ∧
      herdMapping.schema.HasNamePrefixes ∧
      (∀ l ∈ c.leaves, hasDigitSegment l.id.toList = false) ∧
      "app_fd_crops" ∈ (c.predicate herdMapping).names ∧
      ∀ s ∈ (c.predicate herdMapping).names, isQualifiedName s.toList = true := by
  intro c
  have hm : herdMapping.check = .ok () := by rfl
  have hids : ∀ l ∈ c.leaves, IsIdentifier l.id ∧ isAscii l.id = true := by
    decide +kernel
  have hprefixes : herdMapping.schema.HasNamePrefixes := ⟨by decide, by decide⟩
  have hdigits : ∀ l ∈ c.leaves, hasDigitSegment l.id.toList = false := by decide
  exact ⟨hm, hids, hprefixes, hdigits, by decide +kernel,
    (Condition.names_predicate hm hids).2 hprefixes fun l hl _ => hdigits l hl⟩

/-- With a hyphen in the column prefix the check passes, as no field has a column; but the column of
an unmapped child is then no name. -/
theorem hyphenPrefix_accepted :
    let m := Mapping.ofDefinitions "HERDERS" { columnPrefix := "c-" } [.plain "herd" .grid]
    let c : Condition := .leaf (.comparison ⟨"herd.kind", .eq, .single (.string "GOAT"), {}⟩)
    m.check = .ok () ∧ (∀ l ∈ c.leaves, IsIdentifier l.id ∧ isAscii l.id = true) ∧
      "c-kind" ∈ (c.predicate m).names ∧ isQualifiedName "c-kind".toList = false ∧
      (c.predicate m).text =
        "EXISTS (SELECT 1 FROM app_fd_herd g WHERE g.c_parentId = b.id AND g.c-kind = 'GOAT')" :=
  ⟨by rfl, by decide +kernel, by decide +kernel, by decide, by decide +kernel⟩

end Eligibility
