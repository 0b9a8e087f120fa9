import Eligibility.Proofs.Cut
import Eligibility.Proofs.Field
import Eligibility.Proofs.Plan.Call
import Eligibility.Proofs.Plan.Subject
import Eligibility.Proofs.Sql.Precedence

/-!
# Names in the predicates of leaves

* `Mapping.Usable`: a mapping that passes its check, with prefixes of identifier characters;
* `Leaf.id`: the id that a leaf names;
* `Mapping.Usable.literal_clean`, `comparison_clean`, `call_clean`: the parts of a leaf;
* **`Leaf.plan_clean`**: in the predicate of a leaf every name is a name.
-/

namespace Eligibility

open Sql

/-- A mapping that passes its check, with prefixes of identifier characters and literals that are
`lit`. -/
structure Mapping.Usable (lit : String → Prop) (m : Mapping) : Prop where
  check : m.check = .ok ()
  columnPrefix : m.schema.columnPrefix.toList.all isWordChar = true
  tablePrefix : m.schema.tablePrefix.toList.all isWordChar = true
  trueLiteral : lit m.schema.trueLiteral
  falseLiteral : lit m.schema.falseLiteral

theorem Mapping.Usable.mono {lit lit' : String → Prop} {m : Mapping} (hl : ∀ s, lit s → lit' s)
    (hm : m.Usable lit) : m.Usable lit' where
  check := hm.check
  columnPrefix := hm.columnPrefix
  tablePrefix := hm.tablePrefix
  trueLiteral := hl _ hm.trueLiteral
  falseLiteral := hl _ hm.falseLiteral

/-- A person with an age and a herd of animals of some kind. -/
def herdMapping : Mapping :=
  .ofDefinitions "HERDERS" {} [.plain "age" .number, .plain "herd" .grid,
    .plain "herd.kind" .lookup]

theorem herdMapping_usable : herdMapping.Usable IsLiteral where
  check := by rfl
  columnPrefix := by decide
  tablePrefix := by decide
  trueLiteral := by decide +kernel
  falseLiteral := by decide +kernel

/-- The id of the field or grid that a leaf names. -/
def Leaf.id : Leaf → String
  | comparison c => c.field
  | call f => f.target

/-! ## Names by convention -/

/-- What follows a part of a full name is full. -/
theorem tailWidth_of_append {cs ds : List Char}
    (h : tailWidth (cs ++ ds) = (cs ++ ds).length) : tailWidth ds = ds.length := by
  induction cs with
  | nil => exact h
  | cons c cs ih =>
    rw [List.cons_append, tailWidth] at h
    split at h
    · exact ih (Nat.succ.inj h)
    · cases h

theorem tailWidth_dot_full {ds : List Char} (h : tailWidth ('.' :: ds) = ('.' :: ds).length) :
    ∃ e es, ds = e :: es ∧ isWordChar e = true ∧ tailWidth ds = ds.length := by
  rw [tailWidth] at h
  split at h
  · rename_i hw
    cases ds with
    | nil => exact absurd hw (by decide)
    | cons e es =>
      have he : isWordChar '.' = false := by decide
      rw [he] at hw
      exact ⟨e, es, rfl, hw, Nat.succ.inj h⟩
  · cases h

theorem isName_prefixed {a p b : List Char} (ha : isName a = true) (hp : p.all isWordChar = true)
    {e : Char} {es : List Char} (hb : b = e :: es) (he : isWordChar e = true)
    (hf : tailWidth b = b.length) : isName (a ++ '.' :: (p ++ b)) = true := by
  have hfull : tailWidth (p ++ b) = (p ++ b).length := by
    rw [tailWidth_append_of_full (tailWidth_of_all hp), hf, List.length_append]
  obtain ⟨d, ds, hd, hw⟩ : ∃ d ds, p ++ b = d :: ds ∧ isWordChar d = true := by
    cases p with
    | nil => exact ⟨e, es, hb, he⟩
    | cons d ds =>
      rw [List.all_cons, Bool.and_eq_true] at hp
      exact ⟨d, ds ++ b, rfl, hp.1⟩
  rw [hd] at hfull ⊢
  exact isName_dotted ha hw hfull

theorem isComplete_prefixed {p s : String} (hp : p.toList.all isWordChar = true)
    (hs : ∀ c ∈ s.toList, isInert c = true) : IsComplete (p ++ s) := by
  refine isComplete_of_inert ?_
  rw [String.toList_append, List.all_append, Bool.and_eq_true]
  exact ⟨List.all_eq_true.2 fun c hc => isInert_of_isWordChar (List.all_eq_true.1 hp c hc),
    List.all_eq_true.2 hs⟩

theorem IsIdentifier.inert {s : String} (h : IsIdentifier s) : ∀ c ∈ s.toList, isInert c = true :=
  List.all_eq_true.1 (all_isInert_of_full (tailWidth_of_isName h.isName))

theorem isComplete_of_isName {s : String} (h : isName s.toList = true) : IsComplete s :=
  isComplete_of_inert (all_isInert_of_full (tailWidth_of_isName h))

/-! ## Clean terms -/

namespace Mapping.Usable

variable {lit : String → Prop} {m : Mapping} (hm : m.Usable lit)
include hm

theorem checked : m.Checked := Mapping.checked_of_check hm.check

theorem gridColumn_clean {name : String} (h : isPlainName name.toList = true) :
    (m.gridColumn name).Clean := by
  have := isName_column hm.checked.schema.gridAlias h
  simpa [Column.Clean, Column.text, Mapping.gridColumn, toString] using this

theorem baseColumn_clean {name : String} (h : isPlainName name.toList = true) :
    (Column.mk m.schema.baseAlias name).Clean := by
  have := isName_column hm.checked.schema.baseAlias h
  simpa [Column.Clean, Column.text, toString] using this

theorem child_clean {id grid child : String} (hid : IsIdentifier id)
    (h : Text.cut? '.' id = some (grid, child)) :
    (m.gridColumn (m.schema.columnPrefix ++ child)).Clean := by
  have hfull := tailWidth_of_isName hid.isName
  rw [(cut?_spec h).1] at hfull
  obtain ⟨e, es, hes, he, hf⟩ := tailWidth_dot_full (tailWidth_of_append hfull)
  have := isName_prefixed (isName_of_plain hm.checked.schema.gridAlias) hm.columnPrefix hes he hf
  simpa [Column.Clean, Column.text, Mapping.gridColumn, toString] using this

theorem rows_clean {table : String} (h : IsComplete table) : (m.rows table).Clean where
  table := h
  rowAlias := isName_of_plain hm.checked.schema.gridAlias
  foreignKey := by
    have := isName_column hm.checked.schema.gridAlias hm.checked.schema.gridForeignKey
    simpa [Mapping.rows] using this
  baseKey := by
    have := isName_column hm.checked.schema.baseAlias hm.checked.schema.keyColumn
    simpa [Mapping.rows, Schema.keyExpression] using this

theorem literal_clean (v : Value) : (m.literal v).CleanValue lit := by
  match v with
  | .int n => exact ⟨trivial, nofun⟩
  | .float x => exact ⟨trivial, nofun⟩
  | .bool true => exact ⟨hm.trueLiteral, nofun⟩
  | .bool false => exact ⟨hm.falseLiteral, nofun⟩
  | .string s => exact ⟨trivial, nofun⟩
  | .identifier id =>
    rw [Mapping.literal, Mapping.wordColumn?]
    cases hr : m.resolve? id with
    | none => exact ⟨trivial, nofun⟩
    | some r =>
      cases r with
      | base column d => exact ⟨hm.baseColumn_clean (hm.checked.base hr), nofun⟩
      | grid table d => exact ⟨trivial, nofun⟩
      | gridChild table column d => exact ⟨trivial, nofun⟩

theorem literals_clean (vs : List Value) : ∀ t ∈ vs.map m.literal, t.CleanValue lit := by
  intro t ht
  obtain ⟨v, -, rfl⟩ := List.mem_map.1 ht
  exact hm.literal_clean v

/-! ## Clean comparisons -/

theorem test_clean (test : Test) {t : Term} (ht : t.Clean lit) (nullOnly negated : Bool) :
    (test.predicate m t nullOnly negated).Clean lit := by
  have hempty : (Term.quoted "").CleanValue lit := ⟨trivial, nofun⟩
  cases test with
  | empty =>
    rw [Test.predicate]; split
    · exact ht
    · exact ⟨ht, ht, hempty⟩
  | filled =>
    rw [Test.predicate]; split
    · exact ht
    · exact ⟨ht, ht, hempty⟩
  | between low high => exact ⟨ht, hm.literal_clean low, hm.literal_clean high⟩
  | oneOf vs =>
    rw [Test.predicate]; split
    · exact ⟨ht, hm.literals_clean vs⟩
    · exact ⟨ht, hm.literals_clean vs⟩
  | like before after s => exact ht
  | relation r v => exact ⟨ht, hm.literal_clean v⟩

theorem planOn_clean (c : Comparison) {t : Term} (ht : t.Clean lit) (nullOnly negated : Bool) :
    (c.planOn m t nullOnly negated).predicate.Clean lit := by
  rw [Comparison.planOn]
  split
  · exact hm.test_clean _ ht nullOnly negated
  · trivial

omit hm in
theorem negatedIf_clean {p : Predicate} (h : p.Clean lit) (negated : Bool) :
    (Predicate.negatedIf negated p).Clean lit := by
  cases negated <;> exact h

theorem planOnGrid_clean (c : Comparison) {table column : String} (ht : IsComplete table)
    (hc : (m.gridColumn column).Clean) (nullOnly negated : Bool) :
    (c.planOnGrid m table column nullOnly negated).predicate.Clean lit :=
  negatedIf_clean (p := .rowExistsWhere _ _)
    ⟨hm.rows_clean ht, hm.planOn_clean c (t := .column _) hc nullOnly false⟩ negated

theorem comparison_clean {c : Comparison} (hid : IsIdentifier c.field) (negated : Bool) :
    (c.plan m negated).predicate.Clean lit := by
  change (c.planRest m negated).predicate.Clean lit
  rw [Comparison.planRest]
  split
  · rename_i column d hr
    exact hm.planOn_clean c (t := .column _) (hm.baseColumn_clean (hm.checked.base hr)) _ _
  · rename_i table column d hr
    obtain ⟨ht, hc⟩ := hm.checked.gridChild hr
    exact hm.planOnGrid_clean c (isComplete_of_isName (isName_of_qualified ht))
      (hm.gridColumn_clean hc) _ _
  · cases negated <;> trivial
  · dsimp only
    split
    · rename_i table column hu
      obtain ⟨grid, child, hcut, htable, rfl⟩ := Comparison.unknownChild?_eq_some.1 hu
      exact hm.planOnGrid_clean c
        (isComplete_of_isName (isName_of_qualified (hm.checked.gridTable htable)))
        (hm.child_clean hid hcut) _ _
    · exact hm.planOn_clean c (t := .name _) hid _ _

/-! ## Clean calls -/

theorem target_clean {f : FunctionCall} (hid : IsIdentifier f.target) {t : CallTarget}
    (h : f.target? m = some t) : IsComplete t.table ∧ ∀ c ∈ t.column, c.Clean := by
  rw [FunctionCall.target?] at h
  split at h
  · rename_i table d hr; cases h
    exact ⟨isComplete_of_isName (isName_of_qualified (hm.checked.grid hr)), nofun⟩
  · rename_i table column d hr; cases h
    obtain ⟨ht, hc⟩ := hm.checked.gridChild hr
    refine ⟨isComplete_of_isName (isName_of_qualified ht), fun c hc' => ?_⟩
    cases hc'; exact hm.gridColumn_clean hc
  · cases h
  · split at h
    · rename_i grid child hcut; cases h
      refine ⟨?_, fun c hc => ?_⟩
      · cases hg : m.gridTable? grid with
        | some table =>
          exact isComplete_of_isName (isName_of_qualified (hm.checked.gridTable hg))
        | none =>
          refine isComplete_prefixed hm.tablePrefix fun c hc => hid.inert c ?_
          rw [(cut?_spec hcut).1]; exact List.mem_append_left _ hc
      · cases hc; exact hm.child_clean hid hcut
    · cases h
      exact ⟨isComplete_prefixed hm.tablePrefix hid.inert, nofun⟩

theorem aggregate_clean {f : FunctionCall} {t : CallTarget} (ht : IsComplete t.table)
    (hc : ∀ c ∈ t.column, c.Clean) : (f.planAggregate m t).predicate.Clean lit := by
  have hterm {a : Aggregate} (ha : FunctionCall.aggregate? f.function t.column = some a) :
      (Term.aggregate a (m.rows t.table)).Clean lit := by
    have hcolumns : ∀ c ∈ a.columns, c.Clean := fun c hmem => by
      rw [FunctionCall.columns_aggregate? ha, Option.mem_toList] at hmem
      exact hc c hmem
    refine ⟨?_, hm.rows_clean ht⟩
    cases a with
    | countRows => trivial
    | _ => exact hcolumns _ List.mem_cons_self
  have hplan := FunctionCall.aggregatePlan_planAggregate m f t
  generalize f.planAggregate m t = p at hplan
  cases hplan with
  | noColumn | notComparable => trivial
  | compared ha => exact ⟨hterm ha, hm.literal_clean _⟩
  | aboveZero ha => exact ⟨hterm ha, trivial, nofun⟩
  | there ha => exact hterm ha

theorem rowHas_clean {table : String} {c : Column} (ht : IsComplete table) (hc : c.Clean)
    (v : Value) : (FunctionCall.rowHas m table c v).Clean lit :=
  ⟨hm.rows_clean ht, hc, hm.literal_clean v⟩

theorem check_clean {f : FunctionCall} {t : CallTarget} (ht : IsComplete t.table)
    (hc : ∀ c ∈ t.column, c.Clean) : (f.planCheck m t).predicate.Clean lit := by
  have hplan := FunctionCall.checkPlan_planCheck m f t
  generalize f.planCheck m t = p at hplan
  cases hplan with
  | nothing | noColumn => trivial
  | row negated => exact negatedIf_clean (p := .rowExists _) (hm.rows_clean ht) negated
  | @filled c hcolumn negated =>
    have : (Predicate.rowExistsWhere (m.rows t.table) (.isNotNull (.column c))).Clean lit :=
      ⟨hm.rows_clean ht, hc c hcolumn⟩
    exact negatedIf_clean this negated
  | has _ hcolumn => exact hm.rowHas_clean ht (hc _ hcolumn) _
  | hasAll _ hcolumn =>
    exact Predicate.clean_all
      (List.forall_mem_map.2 fun v _ => hm.rowHas_clean ht (hc _ hcolumn) v)
  | @oneOf vs c _ hcolumn negated =>
    have : (Predicate.rowExistsWhere (m.rows t.table)
        (.isIn (.column c) (vs.map m.literal))).Clean lit :=
      ⟨hm.rows_clean ht, hc c hcolumn, hm.literals_clean vs⟩
    exact negatedIf_clean this negated

theorem call_clean {f : FunctionCall} (hid : IsIdentifier f.target) :
    (f.plan m).predicate.Clean lit := by
  refine FunctionCall.predicate_plan trivial (fun t h => ?_) fun t h => ?_
  · obtain ⟨ht, hc⟩ := hm.target_clean hid h
    exact hm.aggregate_clean ht hc
  · obtain ⟨ht, hc⟩ := hm.target_clean hid h
    exact hm.check_clean ht hc

end Mapping.Usable

/-- The predicate of a leaf with an identifier is clean. -/
theorem Leaf.plan_clean {lit : String → Prop} {m : Mapping} (hm : m.Usable lit) {l : Leaf}
    (hid : IsIdentifier l.id) (negated : Bool) : (l.plan m negated).predicate.Clean lit := by
  cases l with
  | comparison c => exact hm.comparison_clean hid negated
  | call f => exact hm.call_clean hid

end Eligibility
