import Eligibility.Proofs.Plan.Leaf
import Eligibility.Proofs.Ruleset.Counts

/-!
# Mapped ids resolve

A mapping is built step by step. Whatever the steps, if it passes its check then every mapped id is
stored somewhere, under names that SQL can be written with.

* `BuildStep`, `Mapping.build`: the steps, in any order;
* `Mapping.Keyed`, `keyed_build`: every field stands under its own id;
* `Mapping.Stored`, `stored_resolve?`: where an id is stored, by the flag of its field and the dot
  in it;
* `Rule.resolve?_of_unknownField`: what is reported as unknown is stored nowhere;
* `Mapping.Resolves`, **`Mapping.resolves_build`**.
-/

namespace Eligibility

/-! ## Building -/

/-- A step of building a mapping. -/
inductive BuildStep where
  | definition (d : FieldDefinition)
  | field (id : String) (fieldType : FieldType)
  | column (id name : String)
  | grid (id table : String)

def BuildStep.apply (m : Mapping) : BuildStep → Mapping
  | definition d => m.withDefinition d
  | field id fieldType => m.withField id fieldType
  | column id name => m.withColumn id name
  | grid id table => m.withGrid id table

namespace Mapping

/-- The mapping that steps build, one after the other. -/
def build (scope : String) (schema : Schema) (steps : List BuildStep) : Mapping :=
  steps.foldl BuildStep.apply (empty scope schema)

theorem ofDefinitions_eq_build (scope : String) (schema : Schema) (ds : List FieldDefinition) :
    ofDefinitions scope schema ds = build scope schema (ds.map .definition) := by
  rw [build, List.foldl_map]
  rfl

/-- Every field stands under the id of its definition. -/
def Keyed (m : Mapping) : Prop :=
  ∀ (id : String) (f : MappedField), m.fields[id]? = some f → f.definition.id = id

theorem keyed_empty (scope : String) (schema : Schema) : (empty scope schema).Keyed := by
  intro id f h
  rw [empty, Std.TreeMap.getElem?_emptyc] at h
  cases h

variable {m : Mapping}

theorem Keyed.insert (hm : m.Keyed) {id : String} {f : MappedField} (hf : f.definition.id = id) :
    (m.insert id f).Keyed := by
  intro id' f' h
  rw [Mapping.insert, Std.TreeMap.getElem?_insert] at h
  split at h
  · rename_i heq
    cases h
    exact hf.trans (Std.LawfulEqCmp.eq_of_compare heq)
  · exact hm id' f' h

/-- One step keeps every field under its own id. -/
theorem Keyed.apply (hm : m.Keyed) (step : BuildStep) : (step.apply m).Keyed := by
  cases step with
  | definition d => exact hm.insert rfl
  | field id fieldType => exact hm.insert rfl
  | column id name =>
    change (m.withColumn id name).Keyed
    unfold withColumn
    split
    · rename_i f hf
      exact hm.insert (hm id f hf)
    · exact hm.insert rfl
  | grid id table =>
    change (m.withGrid id table).Keyed
    unfold withGrid
    split
    · rename_i f hf
      exact hm.insert (hm id f hf)
    · exact hm.insert rfl

theorem Keyed.foldl (hm : m.Keyed) (steps : List BuildStep) :
    (steps.foldl BuildStep.apply m).Keyed := by
  induction steps generalizing m with
  | nil => exact hm
  | cons step steps ih => exact ih (hm.apply step)

/-- However a mapping is built, every field stands under its own id. -/
theorem keyed_build (scope : String) (schema : Schema) (steps : List BuildStep) :
    (build scope schema steps).Keyed :=
  (keyed_empty scope schema).foldl steps

/-! ## Resolving -/

/-- Where an id is stored: nowhere without a field, as a grid where its field is flagged as one, and
otherwise by the dot in the id. -/
inductive Stored (m : Mapping) (id : String) : Option FieldRef → Prop where
  | nowhere (hf : m.fields[id]? = none) : m.Stored id none
  | grid {f : MappedField} (hf : m.fields[id]? = some f) (hgrid : f.definition.isGrid = true) :
      m.Stored id (some (.grid f.target f.definition))
  | base {f : MappedField} (hf : m.fields[id]? = some f) (hgrid : f.definition.isGrid = false)
      (hcut : Text.cut? '.' id = none) : m.Stored id (some (.base f.target f.definition))
  | gridChild {f : MappedField} {parent : String × String} {table : String}
      (hf : m.fields[id]? = some f) (hgrid : f.definition.isGrid = false)
      (hcut : Text.cut? '.' id = some parent) (htable : m.gridTable? parent.1 = some table) :
      m.Stored id (some (.gridChild table f.target f.definition))

/-- In a mapping that passes its check an id resolves to where it is stored. -/
theorem stored_resolve? (hcheck : m.check = .ok ()) (hm : m.Keyed) (id : String) :
    m.Stored id (m.resolve? id) := by
  unfold resolve?
  cases hf : m.fields[id]? with
  | none => exact .nowhere hf
  | some f =>
    have hparent : f.definition.parent? = (Text.cut? '.' id).map (·.1) := by
      rw [FieldDefinition.parent?, hm id f hf]
    rw [Option.bind_some]
    cases hgrid : f.definition.isGrid with
    | true => exact .grid hf hgrid
    | false =>
      cases hcut : Text.cut? '.' id with
      | none =>
        rw [hcut] at hparent
        simp only [hparent, Option.map_none, Bool.false_eq_true, if_false]
        exact .base hf hgrid hcut
      | some parent =>
        rw [hcut] at hparent
        obtain ⟨table, htable⟩ :=
          Option.isSome_iff_exists.1 (gridTable?_of_check hcheck hf hgrid hparent)
        simp only [hparent, Option.map_some, htable, Bool.false_eq_true, if_false]
        exact .gridChild hf hgrid hcut htable

end Mapping

/-! ## Unknown fields -/

section Unknown

variable {m : Mapping} {id : String}

theorem Rule.resolve?_of_unknownField {r : Rule} {position : Position}
    (h : (position, .unknownField id) ∈ (r.plan m).warnings) : m.resolve? id = none := by
  cases objection_of_mem_warnings h with
  | leaf _ _ h => exact h.resolve?_of_unknownField

end Unknown

/-- The report of an unknown field begins as no other warning does. -/
theorem PlanWarning.eq_unknownField_of_head? {w : PlanWarning}
    (h : w.message.toList.head? = some 'U') : ∃ id, w = unknownField id := by
  rw [head?_message] at h
  cases w with
  | unknownField id => exact ⟨id, rfl⟩
  | _ => cases h

theorem PlanWarning.eq_of_message_eq {w : PlanWarning} {id : String}
    (h : w.message = (unknownField id).message) : w = unknownField id := by
  have hunknown (id : String) : (unknownField id).message = "Unknown field '" ++ id ++ "'" := rfl
  obtain ⟨id', rfl⟩ := eq_unknownField_of_head? (w := w) (by rw [h, hunknown]; simp)
  have hlist := congrArg String.toList ((hunknown id').symm.trans (h.trans (hunknown id)))
  simp only [String.toList_append] at hlist
  rw [String.toList_inj.1 (List.append_cancel_left (List.append_cancel_right hlist))]

theorem compile_resolve?_of_unknownField {rules : List Rule} {code scope : String} {m : Mapping}
    {s : Ruleset} (h : compile rules code scope m = .ok s) {w : CompilationWarning}
    (hw : w ∈ s.warnings) {id : String} (hid : w.message = (PlanWarning.unknownField id).message) :
    m.resolve? id = none := by
  rcases compile_mem_warnings h hw with rfl | ⟨_, _, rfl⟩ | ⟨rule, -, ⟨position, v⟩, hv, rfl⟩
  · cases PlanWarning.eq_of_message_eq (w := .scopeMismatch m.scope scope) hid
  · cases PlanWarning.eq_of_message_eq (w := .duplicateCode _ _) hid
  · cases PlanWarning.eq_of_message_eq (w := v) hid
    exact Rule.resolve?_of_unknownField hv

/-! ## Accepted mappings -/

/-- The names of a reference are names in SQL; that of a table may have dots. -/
def FieldRef.Named : FieldRef → Prop
  | base column _ => isPlainName column.toList = true
  | grid table _ => isQualifiedName table.toList = true
  | gridChild table column _ =>
    isQualifiedName table.toList = true ∧ isPlainName column.toList = true

/-- What a mapping promises about its ids. -/
structure Mapping.Resolves (m : Mapping) : Prop where
  mapped (id : String) : (m.resolve? id).isSome = true ↔ m.contains id = true
  grid (id table : String) : m.gridTable? id = some table ↔
    ∃ d, m.resolve? id = some (.grid table d)
  column (id text : String) : m.columnExpression? id = some text ↔
    (∃ column d, m.resolve? id = some (.base column d) ∧
      text = m.schema.baseAlias ++ "." ++ column) ∨
    ∃ table column d, m.resolve? id = some (.gridChild table column d) ∧
      text = m.schema.gridAlias ++ "." ++ column
  /-- The grid children are the dotted ids of fields that are not flagged as grids. -/
  child (id : String) : (∃ table column d, m.resolve? id = some (.gridChild table column d)) ↔
    (∃ d, m.definition? id = some d ∧ d.isGrid = false) ∧ '.' ∈ id.toList
  childTable {id table column : String} {d : FieldDefinition}
    (h : m.resolve? id = some (.gridChild table column d)) :
    ∃ parent, Text.cut? '.' id = some parent ∧ m.gridTable? parent.1 = some table
  named {id : String} {r : FieldRef} (h : m.resolve? id = some r) : r.Named
  /-- Rules compile, and no mapped id is reported as unknown. -/
  known (rules : List Rule) (code scope : String) : ∃ s, compile rules code scope m = .ok s ∧
    ∀ id, m.contains id = true → ∀ w ∈ s.warnings,
      w.message ≠ (PlanWarning.unknownField id).message

namespace Mapping

section Keyed

variable {m : Mapping} (hcheck : m.check = .ok ()) (hm : m.Keyed)
include hcheck hm

theorem mapped_of_keyed (id : String) : (m.resolve? id).isSome = true ↔ m.contains id = true := by
  have hcontains : m.contains id = m.fields[id]?.isSome :=
    Std.TreeMap.isSome_getElem?_eq_contains.symm
  rw [hcontains]
  have hstored := stored_resolve? hcheck hm id
  generalize m.resolve? id = r at hstored
  cases hstored with
  | nowhere hf => simp [hf]
  | grid hf => simp [hf]
  | base hf => simp [hf]
  | gridChild hf => simp [hf]

theorem grid_of_keyed (id table : String) :
    m.gridTable? id = some table ↔ ∃ d, m.resolve? id = some (.grid table d) := by
  have hstored := stored_resolve? hcheck hm id
  unfold gridTable?
  -- the lookup of a grid reads the same field and the same flag
  generalize m.resolve? id = r at hstored ⊢
  cases hstored with
  | nowhere hf => simp [hf]
  | grid hf hgrid => simp [hf, hgrid]
  | base hf hgrid => simp [hf, hgrid]
  | gridChild hf hgrid => simp [hf, hgrid]

theorem child_of_keyed (id : String) :
    (∃ table column d, m.resolve? id = some (.gridChild table column d)) ↔
      (∃ d, m.definition? id = some d ∧ d.isGrid = false) ∧ '.' ∈ id.toList := by
  rw [← cut?_isSome]
  have hstored := stored_resolve? hcheck hm id
  unfold definition?
  generalize m.resolve? id = r at hstored ⊢
  cases hstored with
  | nowhere hf => simp [hf]
  | grid hf hgrid => simp [hf, hgrid]
  | base hf hgrid hcut => simp [hcut]
  | gridChild hf hgrid hcut => simp [hf, hgrid, hcut]

theorem childTable_of_keyed {id table column : String} {d : FieldDefinition}
    (h : m.resolve? id = some (.gridChild table column d)) :
    ∃ parent, Text.cut? '.' id = some parent ∧ m.gridTable? parent.1 = some table := by
  have hstored := stored_resolve? hcheck hm id
  rw [h] at hstored
  cases hstored with
  | gridChild hf hgrid hcut htable => exact ⟨_, hcut, htable⟩

omit hm in
theorem named_of_check {id : String} {r : FieldRef} (h : m.resolve? id = some r) : r.Named := by
  have hchecked := checked_of_check hcheck
  cases r with
  | base column d => exact hchecked.base h
  | grid table d => exact hchecked.grid h
  | gridChild table column d => exact hchecked.gridChild h

end Keyed

theorem columnExpression?_eq_some {m : Mapping} {id text : String} :
    m.columnExpression? id = some text ↔
      (∃ column d, m.resolve? id = some (.base column d) ∧
        text = m.schema.baseAlias ++ "." ++ column) ∨
      ∃ table column d, m.resolve? id = some (.gridChild table column d) ∧
        text = m.schema.gridAlias ++ "." ++ column := by
  rw [columnExpression?, Option.bind_eq_some_iff]
  constructor
  · rintro ⟨r, hr, htext⟩
    cases r with
    | base column d => cases htext; exact .inl ⟨column, d, hr, rfl⟩
    | grid table d => cases htext
    | gridChild table column d => cases htext; exact .inr ⟨table, column, d, hr, rfl⟩
  · rintro (⟨column, d, hr, rfl⟩ | ⟨table, column, d, hr, rfl⟩)
    · exact ⟨_, hr, rfl⟩
    · exact ⟨_, hr, rfl⟩

/-- **A mapping that passes its check resolves its ids**, whatever the steps that built it. -/
theorem resolves_build {scope : String} {schema : Schema} {steps : List BuildStep}
    (h : (build scope schema steps).check = .ok ()) : (build scope schema steps).Resolves :=
  have hm := keyed_build scope schema steps
  { mapped := mapped_of_keyed h hm
    grid := grid_of_keyed h hm
    column := fun _ _ => columnExpression?_eq_some
    child := child_of_keyed h hm
    childTable := childTable_of_keyed h hm
    named := named_of_check h
    known := fun rules code ruleScope => by
      have hs := compile_of_check rules code ruleScope h
      refine ⟨_, hs, fun id hid w hw hmessage => ?_⟩
      have hsome := (mapped_of_keyed h hm id).2 hid
      rw [compile_resolve?_of_unknownField hs hw hmessage] at hsome
      cases hsome }

/-- A child that stands before its grid, a grid in a schema of its own, and a field that becomes a
grid. -/
theorem movedHerd_resolves :
    let steps : List BuildStep := [.field "herd.kind" .lookup, .column "age" "c_years",
      .field "crops" .text, .grid "herd" "farm.herd", .grid "crops" "farm.crops",
      .column "herd.kind" "species"]
    (build "HERDERS" {} steps).check = .ok () ∧ (build "HERDERS" {} steps).Resolves := by
  have h : (build "HERDERS" {} [.field "herd.kind" .lookup, .column "age" "c_years",
      .field "crops" .text, .grid "herd" "farm.herd", .grid "crops" "farm.crops",
      .column "herd.kind" "species"]).check = .ok () := by rfl
  exact ⟨h, resolves_build h⟩

end Mapping

end Eligibility
