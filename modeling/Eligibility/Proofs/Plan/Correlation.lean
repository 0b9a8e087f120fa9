import Eligibility.Proofs.Cut
import Eligibility.Proofs.Plan.Condition
import Eligibility.Proofs.Sql.Scope

/-!
# Correlation of grid subqueries

Inside a subquery the key of the base row is written with the alias of the base table, and so is a
base field. Both refer to the base row unless the alias of grids is the same.

* `Schema.Separates`: the alias of grids does not hide the alias of the base table;
* `Mapping.rows_correlated_iff`: the rows of a grid belong to the base row exactly then;
* `Mapping.Tied`: a predicate is correlated exactly then, or has no subquery;
* `Leaf.tied`, **`Condition.correlated_iff`**: predicates of leaves and of conditions are tied;
* `sharedAlias_uncorrelated`: a mapping that passes its check with one alias for both.
-/

namespace Eligibility

open Sql

/-! ## Aliases -/

namespace Schema

/-- The aliases in reach of a predicate on the base row. -/
def scope (s : Schema) : Scope := [(s.baseAlias, .base)]

/-- The alias of grids does not hide the alias of the base table. -/
def Separates (s : Schema) (names : NameRule) : Prop := names.same s.gridAlias s.baseAlias = false

instance (s : Schema) (names : NameRule) : Decidable (s.Separates names) :=
  inferInstanceAs (Decidable (_ = false))

end Schema

theorem dot_notMem_of_plain {cs : List Char} (h : isPlainName cs = true) : '.' ∉ cs := by
  obtain ⟨-, -, -, -, hword⟩ := isPlainName_cons h
  exact fun hdot => absurd (List.all_eq_true.1 hword '.' hdot) (by decide)

namespace Mapping

variable {m : Mapping}

theorem cut?_keyExpression (hm : m.check = .ok ()) :
    Text.cut? '.' m.schema.keyExpression = some (m.schema.baseAlias, m.schema.keyColumn) := by
  have hdot := dot_notMem_of_plain (checked_of_check hm).schema.baseAlias
  have hlist : m.schema.keyExpression.toList =
      m.schema.baseAlias.toList ++ '.' :: m.schema.keyColumn.toList := by
    rw [Schema.keyExpression, String.toList_append, String.toList_append, List.append_assoc]
    rfl
  rw [Text.cut?, hlist, cutChars?_append hdot, Option.map_some, String.ofList_toList,
    String.ofList_toList]

section Rows

variable (m) (names : NameRule) (table : String)

theorem origin?_base : m.schema.scope.origin? names m.schema.baseAlias = some .base := by
  rw [Schema.scope, Scope.origin?_cons, names.same_self, if_pos rfl]

theorem origin?_grid : ((m.rows table).scope m.schema.scope).origin? names m.schema.gridAlias =
    some (.grid table) := by
  rw [RowSource.scope, Scope.origin?_cons]
  exact if_pos (names.same_self _)

theorem baseColumn_refersTo (column : String) :
    (Term.column ⟨m.schema.baseAlias, column⟩).RefersTo names m.schema m.schema.scope .base :=
  m.origin?_base names

theorem gridColumn_refersTo (column : String) : (Term.column (m.gridColumn column)).RefersTo names
    m.schema ((m.rows table).scope m.schema.scope) (.grid table) :=
  m.origin?_grid names table

theorem origin?_base_inside :
    ((m.rows table).scope m.schema.scope).origin? names m.schema.baseAlias =
      if names.same m.schema.gridAlias m.schema.baseAlias then some (.grid table)
      else some .base := by
  rw [RowSource.scope, Scope.origin?_cons, origin?_base]
  rfl

variable {m} in
/-- The rows of a grid belong to the base row exactly if the aliases are told apart. -/
theorem rows_correlated_iff (hm : m.check = .ok ()) :
    (m.rows table).Correlated names m.schema m.schema.scope ↔ m.schema.Separates names := by
  have hkey := cut?_keyExpression hm
  have hinside := m.origin?_base_inside names table
  constructor
  · intro h
    obtain ⟨a, hcut, ha⟩ := h.key
    obtain ⟨rfl, -⟩ := Prod.mk.inj (Option.some.inj (hkey.symm.trans hcut))
    rw [hinside] at ha
    split at ha
    · cases ha
    · rename_i hsame
      exact Bool.eq_false_iff.2 hsame
  · intro h
    rw [h, if_neg Bool.false_ne_true] at hinside
    exact ⟨rfl, m.origin?_grid names table, m.schema.baseAlias, hkey, hinside⟩

end Rows

/-- A predicate is correlated exactly if the aliases are told apart, or it has no subquery. -/
def Tied (m : Mapping) (names : NameRule) (p : Predicate) : Prop :=
  p.Correlated names m.schema m.schema.scope .base ↔ p.sources = [] ∨ m.schema.Separates names

namespace Tied

variable {names : NameRule} {p q : Predicate}

theorem of_plain (hp : p.Correlated names m.schema m.schema.scope .base) (hs : p.sources = []) :
    m.Tied names p := iff_of_true hp (.inl hs)

theorem paren (hp : m.Tied names p) : m.Tied names (.paren p) := hp

theorem not (hp : m.Tied names p) : m.Tied names (.not p) := hp

theorem negatedIf (hp : m.Tied names p) (negated : Bool) :
    m.Tied names (.negatedIf negated p) := by
  cases negated
  · exact hp
  · exact hp.not

theorem and (hp : m.Tied names p) (hq : m.Tied names q) : m.Tied names (.and p q) := by
  unfold Tied at hp hq ⊢
  rw [Predicate.Correlated, Predicate.sources, List.append_eq_nil_iff, hp, hq]
  exact and_or_right.symm

theorem or (hp : m.Tied names p) (hq : m.Tied names q) : m.Tied names (.or p q) := hp.and hq

theorem all {ps : List Predicate} (h : ∀ p ∈ ps, m.Tied names p) : m.Tied names (.all ps) :=
  Predicate.all_of_and (of_plain trivial rfl) (fun _ _ hp hq => hp.and hq) h

end Tied

end Mapping

/-! ## Terms and tests -/

section Tests

variable {m : Mapping} {names : NameRule} {scope : Scope} {o : Origin}

theorem Mapping.sources_literal (m : Mapping) (v : Value) : (m.literal v).sources = [] := by
  cases v with
  | identifier id =>
    rw [literal]
    cases m.wordColumn? id <;> rfl
  | bool b => cases b <;> rfl
  | _ => rfl

/-- A bare word refers to the base row wherever the alias of the base table does. -/
theorem Mapping.literal_refersTo (h : scope.origin? names m.schema.baseAlias = some .base)
    (v : Value) : (m.literal v).RefersTo names m.schema scope .base := by
  cases v with
  | identifier id =>
    rw [literal, wordColumn?]
    rcases m.resolve? id with _ | (_ | _ | _)
    · trivial
    · exact h
    · trivial
    · trivial
  | bool b => cases b <;> trivial
  | _ => trivial

theorem Test.sources_predicate {t : Term} (ht : t.sources = []) (test : Test)
    (nullOnly negated : Bool) : (test.predicate m t nullOnly negated).sources = [] := by
  have hliterals (vs : List Value) : (vs.map m.literal).flatMap Term.sources = [] := by
    rw [List.flatMap_eq_nil_iff]
    exact List.forall_mem_map.2 fun v _ => m.sources_literal v
  cases test with
  | empty | filled =>
    cases nullOnly
    · change t.sources ++ (t.sources ++ []) = []
      rw [ht]
      rfl
    · exact ht
  | between low high => simp [predicate, Predicate.sources, Mapping.sources_literal, ht]
  | oneOf vs => cases negated <;> simp [predicate, Predicate.sources, hliterals, ht]
  | like before after s => exact ht
  | relation r v => simp [predicate, Predicate.sources, Mapping.sources_literal, ht]

theorem Test.correlated {t : Term} (ht : t.RefersTo names m.schema scope o)
    (hbase : scope.origin? names m.schema.baseAlias = some .base) (test : Test)
    (nullOnly negated : Bool) :
    (test.predicate m t nullOnly negated).Correlated names m.schema scope o := by
  have hliteral := Mapping.literal_refersTo hbase
  cases test with
  | empty | filled =>
    cases nullOnly
    · exact ⟨ht, ht, trivial⟩
    · exact ht
  | between low high => exact ⟨ht, hliteral low, hliteral high⟩
  | oneOf vs =>
    have hliterals := List.forall_mem_map.2 fun v (_ : v ∈ vs) => hliteral v
    cases negated
    · exact ⟨ht, hliterals⟩
    · exact ⟨ht, hliterals⟩
  | like before after s => exact ht
  | relation r v => exact ⟨ht, hliteral v⟩

theorem Comparison.planOn_correlated {t : Term} (ht : t.RefersTo names m.schema scope o)
    (hbase : scope.origin? names m.schema.baseAlias = some .base) (c : Comparison)
    (nullOnly negated : Bool) :
    (c.planOn m t nullOnly negated).predicate.Correlated names m.schema scope o := by
  unfold planOn
  split
  · exact Test.correlated ht hbase _ nullOnly negated
  · trivial

theorem Comparison.sources_planOn {t : Term} (ht : t.sources = []) (c : Comparison)
    (nullOnly negated : Bool) : (c.planOn m t nullOnly negated).predicate.sources = [] := by
  unfold planOn
  split
  · exact Test.sources_predicate ht _ nullOnly negated
  · rfl

end Tests

/-! ## Leaves -/

section Leaves

variable {m : Mapping} (hm : m.check = .ok ()) (names : NameRule)
include hm

theorem Mapping.Tied.rowExistsWhere {table : String} {filter : Predicate}
    (h : m.schema.Separates names → filter.Correlated names m.schema
      ((m.rows table).scope m.schema.scope) (.grid table)) :
    m.Tied names (.rowExistsWhere (m.rows table) filter) := by
  have hrows := m.rows_correlated_iff names table hm
  refine ⟨fun hp => .inr (hrows.1 hp.1), fun hp => ?_⟩
  have hsep := hp.resolve_left (List.cons_ne_nil _ _)
  exact ⟨hrows.2 hsep, h hsep⟩

theorem Mapping.Tied.rowExists (table : String) : m.Tied names (.rowExists (m.rows table)) := by
  refine (m.rows_correlated_iff names table hm).trans ⟨.inr, fun hp => ?_⟩
  exact hp.resolve_left (List.cons_ne_nil _ _)

omit hm in
/-- Where the aliases are told apart, the alias of the base table refers to the base row inside a
subquery too. -/
theorem Mapping.origin?_base_of_separates (h : m.schema.Separates names) (table : String) :
    ((m.rows table).scope m.schema.scope).origin? names m.schema.baseAlias = some .base := by
  rw [origin?_base_inside, h]
  rfl

theorem Comparison.planOnGrid_tied (c : Comparison) (table column : String)
    (nullOnly negated : Bool) :
    m.Tied names (c.planOnGrid m table column nullOnly negated).predicate :=
  Mapping.Tied.negatedIf (.rowExistsWhere hm names fun hsep =>
    planOn_correlated (m.gridColumn_refersTo names table column)
      (Mapping.origin?_base_of_separates names hsep table) c nullOnly false) negated

theorem Comparison.tied (c : Comparison) (negated : Bool) :
    m.Tied names (c.plan m negated).predicate := by
  have hbase := m.origin?_base names
  have hcolumn := m.baseColumn_refersTo names
  change m.Tied names (c.planRest m negated).predicate
  unfold planRest
  cases m.resolve? c.field with
  | some r =>
    cases r with
    | base column d =>
      exact .of_plain (planOn_correlated (hcolumn column) hbase c _ _)
        (sources_planOn rfl c _ _)
    | grid table d => cases negated <;> exact .of_plain trivial rfl
    | gridChild table column d => exact planOnGrid_tied hm names c table column _ negated
  | none =>
    dsimp only
    cases c.unknownChild? m with
    | some p => exact planOnGrid_tied hm names c p.1 p.2 false negated
    | none =>
      exact .of_plain (planOn_correlated (t := .name c.field) trivial hbase c _ _)
        (sources_planOn rfl c _ _)

omit hm in
theorem FunctionCall.target?_alias {f : FunctionCall} {t : CallTarget} (h : f.target? m = some t) :
    ∀ c ∈ t.column, c.tableAlias = m.schema.gridAlias := by
  unfold target? at h
  split at h
  · cases h
    exact nofun
  · cases h
    rintro c ⟨⟩
    rfl
  · cases h
  · split at h
    · cases h
      rintro c ⟨⟩
      rfl
    · cases h
      exact nofun

section Aggregate

variable {a : Aggregate} (ha : ∀ c ∈ a.columns, c.tableAlias = m.schema.gridAlias)
include ha

/-- An aggregate over the rows of a grid refers to them exactly if the aliases are told apart. -/
theorem Mapping.aggregate_refersTo_iff (table : String) (o : Origin) :
    (Term.aggregate a (m.rows table)).RefersTo names m.schema m.schema.scope o ↔
      m.schema.Separates names := by
  have hcolumns : ∀ c ∈ a.columns, ((m.rows table).scope m.schema.scope).origin? names
      c.tableAlias = some (.grid table) := fun c hc => by
    rw [ha c hc]
    exact m.origin?_grid names table
  exact (and_iff_left hcolumns).trans (m.rows_correlated_iff names table hm)

theorem Mapping.Tied.compareAggregate (table : String) (r : Relation) {t : Term}
    (ht : t.RefersTo names m.schema m.schema.scope .base) :
    m.Tied names (.compare (.aggregate a (m.rows table)) r t) := by
  have hrefers := Mapping.aggregate_refersTo_iff hm names ha table .base
  refine ((and_iff_left ht).trans hrefers).trans ⟨.inr, fun hp => ?_⟩
  exact hp.resolve_left (List.cons_ne_nil _ _)

theorem Mapping.Tied.isNotNullAggregate (table : String) :
    m.Tied names (.isNotNull (.aggregate a (m.rows table))) := by
  refine (Mapping.aggregate_refersTo_iff hm names ha table .base).trans ⟨.inr, fun hp => ?_⟩
  exact hp.resolve_left (List.cons_ne_nil _ _)

end Aggregate

theorem FunctionCall.planAggregate_tied (f : FunctionCall) {t : CallTarget}
    (ht : ∀ c ∈ t.column, c.tableAlias = m.schema.gridAlias) :
    m.Tied names (f.planAggregate m t).predicate := by
  have halias {a : Aggregate} (ha : aggregate? f.function t.column = some a) :
      ∀ c ∈ a.columns, c.tableAlias = m.schema.gridAlias := fun c hc => by
    rw [columns_aggregate? ha, Option.mem_toList] at hc
    exact ht c hc
  have hplan := aggregatePlan_planAggregate m f t
  generalize f.planAggregate m t = p at hplan
  cases hplan with
  | noColumn | notComparable => exact .of_plain trivial rfl
  | @compared _ ha _ v _ r =>
    exact .compareAggregate hm names (halias ha) t.table r
      (Mapping.literal_refersTo (m.origin?_base names) v)
  | aboveZero ha => exact .compareAggregate hm names (halias ha) t.table .gt trivial
  | there ha => exact .isNotNullAggregate hm names (halias ha) t.table

theorem FunctionCall.planCheck_tied (f : FunctionCall) {t : CallTarget}
    (ht : ∀ c ∈ t.column, c.tableAlias = m.schema.gridAlias) :
    m.Tied names (f.planCheck m t).predicate := by
  have hcolumn {c : Column} (hc : c ∈ t.column) : (Term.column c).RefersTo names m.schema
      ((m.rows t.table).scope m.schema.scope) (.grid t.table) := by
    obtain ⟨a, name⟩ := c
    obtain rfl : a = m.schema.gridAlias := ht _ hc
    exact m.gridColumn_refersTo names t.table name
  have hliteral (hsep : m.schema.Separates names) :=
    Mapping.literal_refersTo (Mapping.origin?_base_of_separates names hsep t.table)
  have hhas {c : Column} (hc : t.column = some c) (v : Value) :
      m.Tied names (rowHas m t.table c v) :=
    .rowExistsWhere hm names fun hsep => ⟨hcolumn hc, hliteral hsep v⟩
  have hplan := checkPlan_planCheck m f t
  generalize f.planCheck m t = p at hplan
  cases hplan with
  | nothing | noColumn => exact .of_plain trivial rfl
  | row => exact Mapping.Tied.negatedIf (.rowExists hm names t.table) _
  | @filled c hc =>
    have hthere : m.Tied names (.rowExistsWhere (m.rows t.table) (.isNotNull (.column c))) :=
      .rowExistsWhere hm names fun _ => hcolumn hc
    exact hthere.negatedIf _
  | has _ hc => exact hhas hc _
  | hasAll _ hc =>
    exact Mapping.Tied.paren (.all (List.forall_mem_map.2 fun v _ => hhas hc v))
  | oneOf _ hc =>
    refine Mapping.Tied.negatedIf (.rowExistsWhere hm names fun hsep => ?_) _
    exact ⟨hcolumn hc, List.forall_mem_map.2 fun v _ => hliteral hsep v⟩

theorem Leaf.tied (l : Leaf) (negated : Bool) : m.Tied names (l.plan m negated).predicate := by
  cases l with
  | comparison c => exact c.tied hm names negated
  | call f =>
    exact FunctionCall.predicate_plan (.of_plain trivial rfl)
      (fun t ht => f.planAggregate_tied hm names (FunctionCall.target?_alias ht))
      fun t ht => f.planCheck_tied hm names (FunctionCall.target?_alias ht)

/-- **Grid subqueries are correlated exactly if the aliases are told apart**, by whatever rule names
are the same, or if there are none. The check does not ask for the former. -/
theorem Condition.correlated_iff (c : Condition) :
    (c.predicate m).Correlated names m.schema m.schema.scope .base ↔
      (c.predicate m).sources = [] ∨ m.schema.Separates names := by
  have hparen (b : Bool) {p : Predicate} (hp : m.Tied names p) : m.Tied names (parenIf b p) := by
    cases b <;> exact hp
  change m.Tied names (c.predicate m)
  induction c with
  | leaf l => exact l.tied hm names false
  | and a b iha ihb => exact (hparen _ iha).and (hparen _ ihb)
  | or a b iha ihb => exact iha.or ihb
  | not c ih =>
    rw [predicate]
    cases c.list? with
    | some l => exact l.tied hm names true
    | none => exact (hparen _ ih).not
  | group c ih => exact ih.paren

end Leaves

/-- Animals whose kind is not the age of the candidate, and whose weight is above it. -/
theorem herdWeights_correlated :
    let c : Condition :=
      .and (.not (.leaf (.comparison
          ⟨"herd.kind", .isIn, .list [.string "goat", .identifier "age"], {}⟩)))
        (.leaf (.call ⟨.sum, "herd.weight", [], some (.gt, .identifier "age"), {}⟩))
    herdMapping.check = .ok () ∧ (c.predicate herdMapping).sources.length = 2 ∧
      herdMapping.schema.Separates .caseless ∧
      (c.predicate herdMapping).Correlated .caseless herdMapping.schema herdMapping.schema.scope
        .base := by
  intro c
  have hm : herdMapping.check = .ok () := by rfl
  have hsep : herdMapping.schema.Separates .caseless := by decide
  exact ⟨hm, by decide +kernel, hsep, (Condition.correlated_iff hm .caseless c).2 (.inr hsep)⟩

/-- With one alias for grids and for the base table the check passes; but then the key that a
subquery compares with is a column of its own rows. -/
theorem sharedAlias_uncorrelated :
    let m := Mapping.ofDefinitions "HERDERS" { gridAlias := "b" }
      [.plain "age" .number, .plain "herd" .grid, .plain "herd.kind" .text]
    let c : Condition := .leaf (.comparison ⟨"herd.kind", .eq, .single (.string "GOAT"), {}⟩)
    m.check = .ok () ∧
      (c.predicate m).text =
        "EXISTS (SELECT 1 FROM app_fd_herd b WHERE b.c_parentId = b.id AND b.c_kind = 'GOAT')" ∧
      ((m.rows "app_fd_herd").scope m.schema.scope).origin? .exact "b" =
        some (.grid "app_fd_herd") ∧
      ¬ (c.predicate m).Correlated .exact m.schema m.schema.scope .base := by
  intro m c
  have hm : m.check = .ok () := by
    unfold m
    rfl
  refine ⟨hm, by decide +kernel, by decide +kernel, fun h => ?_⟩
  rcases (Leaf.tied hm .exact _ false).1 h with hsources | hsep
  · exact absurd hsources (by decide +kernel)
  · exact absurd hsep (by decide +kernel)

end Eligibility
