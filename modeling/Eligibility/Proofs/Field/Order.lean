import Eligibility.Proofs.Field.Convention
import Mathlib.Data.List.Nodup

/-!
# The order of building steps

A step of building a mapping changes what stands under its own id alone, by what stood there before
and the schema. So only the order of the steps about one id matters.

* `Mapping.Agrees`, `Mapping.agrees_of_getElem?`: two mappings answer every question alike;
* `BuildStep.id`, `BuildStep.result`, **`BuildStep.getElem?_apply`**: what one step does;
* **`Mapping.getElem?_foldl`**, `Mapping.agrees_foldl`: what a sequence of steps does;
* **`Mapping.built_alike`**: steps on different ids in either order, and definitions in any order.
-/

namespace Eligibility

namespace Mapping

/-! ## Mappings that agree -/

/-- Two mappings hold the same fields, and answer every question about them alike. -/
structure Agrees (m n : Mapping) : Prop where
  scope : m.scope = n.scope
  schema : m.schema = n.schema
  entries : m.fields.toList = n.fields.toList
  definitions : m.definitions = n.definitions
  definition (id : String) : m.definition? id = n.definition? id
  contains (id : String) : m.contains id = n.contains id
  column (id : String) : m.columnExpression? id = n.columnExpression? id
  table (id : String) : m.gridTable? id = n.gridTable? id
  resolve (id : String) : m.resolve? id = n.resolve? id
  check : m.check = n.check

variable {m n : Mapping}

theorem agrees_of_getElem? (hscope : m.scope = n.scope) (hschema : m.schema = n.schema)
    (h : ∀ id : String, m.fields[id]? = n.fields[id]?) : m.Agrees n := by
  have hequiv : m.fields.Equiv n.fields := .of_forall_constGet?_eq h
  have htable (id : String) : m.gridTable? id = n.gridTable? id := by
    rw [gridTable?, gridTable?, h]
  have hresolve (id : String) : m.resolve? id = n.resolve? id := by
    simp only [resolve?, h, htable]
  have hfield : m.checkField = n.checkField := by
    funext f
    simp only [checkField, htable]
  exact {
    scope := hscope
    schema := hschema
    entries := hequiv.toList_eq
    definitions := by rw [definitions, definitions, hequiv.values_eq]
    definition := fun id => by rw [definition?, definition?, h]
    contains := fun id => hequiv.contains_eq
    column := fun id => by simp only [columnExpression?, hresolve, hschema]
    table := htable
    resolve := hresolve
    check := by rw [check, check, hschema, hfield, hequiv.values_eq] }

end Mapping

/-! ## One step -/

namespace BuildStep

/-- The id that a step is about. -/
def id : BuildStep → String
  | definition d => d.id
  | field id _ | column id _ | grid id _ => id

/-- The field that a step leaves under its id, by the one that stood there. -/
def result (s : Schema) (old : Option MappedField) : BuildStep → MappedField
  | definition d => ⟨d, Mapping.conventionalTarget s d⟩
  | field id fieldType =>
    ⟨.plain id fieldType, Mapping.conventionalTarget s (.plain id fieldType)⟩
  | column id name =>
    match old with
    | some f => { f with target := name }
    | none => ⟨.plain id .text, name⟩
  | grid id table =>
    match old with
    | some f => ⟨{ f.definition with fieldType := .grid, isGrid := true }, table⟩
    | none => ⟨.plain id .grid, table⟩

theorem apply_eq_insert (m : Mapping) (step : BuildStep) :
    step.apply m = m.insert step.id (step.result m.schema m.fields[step.id]?) := by
  cases step with
  | definition d => rfl
  | field id fieldType => rfl
  | column id name =>
    change m.withColumn id name = m.insert id (result m.schema m.fields[id]? (.column id name))
    unfold Mapping.withColumn
    cases m.fields[id]? <;> rfl
  | grid id table =>
    change m.withGrid id table = m.insert id (result m.schema m.fields[id]? (.grid id table))
    unfold Mapping.withGrid
    cases m.fields[id]? <;> rfl

theorem scope_apply (m : Mapping) (step : BuildStep) : (step.apply m).scope = m.scope := by
  rw [apply_eq_insert]
  rfl

theorem schema_apply (m : Mapping) (step : BuildStep) : (step.apply m).schema = m.schema := by
  rw [apply_eq_insert]
  rfl

/-- **A step changes what stands under its own id alone.** -/
theorem getElem?_apply (m : Mapping) (step : BuildStep) (id : String) :
    (step.apply m).fields[id]? =
      if step.id = id then some (step.result m.schema m.fields[id]?) else m.fields[id]? := by
  rw [apply_eq_insert, Mapping.insert, Std.TreeMap.getElem?_insert]
  simp only [Std.LawfulEqCmp.compare_eq_iff_eq]
  by_cases hid : step.id = id
  · rw [if_pos hid, if_pos hid, hid]
  · rw [if_neg hid, if_neg hid]

end BuildStep

/-! ## Sequences of steps -/

namespace Mapping

variable {m : Mapping}

theorem scope_foldl (m : Mapping) (steps : List BuildStep) :
    (steps.foldl BuildStep.apply m).scope = m.scope := by
  induction steps generalizing m with
  | nil => rfl
  | cons step steps ih => rw [List.foldl_cons, ih, step.scope_apply]

theorem schema_foldl (m : Mapping) (steps : List BuildStep) :
    (steps.foldl BuildStep.apply m).schema = m.schema := by
  induction steps generalizing m with
  | nil => rfl
  | cons step steps ih => rw [List.foldl_cons, ih, step.schema_apply]

/-- The steps about an id. -/
def about (id : String) (steps : List BuildStep) : List BuildStep :=
  steps.filter fun step => step.id = id

theorem about_cons_of_eq {step : BuildStep} {id : String} (h : step.id = id)
    (steps : List BuildStep) : about id (step :: steps) = step :: about id steps :=
  List.filter_cons_of_pos (decide_eq_true h)

theorem about_cons_of_ne {step : BuildStep} {id : String} (h : step.id ≠ id)
    (steps : List BuildStep) : about id (step :: steps) = about id steps :=
  List.filter_cons_of_neg (by simpa using h)

/-- **What stands under an id is the work of the steps about it**, one after the other. -/
theorem getElem?_foldl (m : Mapping) (steps : List BuildStep) (id : String) :
    (steps.foldl BuildStep.apply m).fields[id]? =
      (about id steps).foldl (fun old step => some (step.result m.schema old)) m.fields[id]? := by
  induction steps generalizing m with
  | nil => rfl
  | cons step steps ih =>
    rw [List.foldl_cons, ih, step.schema_apply, step.getElem?_apply]
    by_cases hid : step.id = id
    · rw [if_pos hid, about_cons_of_eq hid, List.foldl_cons]
    · rw [if_neg hid, about_cons_of_ne hid]

/-- Sequences with the same steps about every id build mappings that agree. -/
theorem agrees_foldl (m : Mapping) {ss ts : List BuildStep}
    (h : ∀ id, about id ss = about id ts) :
    (ss.foldl BuildStep.apply m).Agrees (ts.foldl BuildStep.apply m) := by
  refine agrees_of_getElem? ?_ ?_ fun id => ?_
  · rw [scope_foldl, scope_foldl]
  · rw [schema_foldl, schema_foldl]
  · rw [getElem?_foldl, getElem?_foldl, h]

/-- Steps on different ids, in either order, are the same steps about every id. -/
theorem about_swap {s t : BuildStep} (h : s.id ≠ t.id) (id : String) :
    about id [s, t] = about id [t, s] := by
  by_cases hs : s.id = id
  · have ht : t.id ≠ id := fun ht => h (hs.trans ht.symm)
    rw [about_cons_of_eq hs, about_cons_of_ne ht, about_cons_of_ne ht, about_cons_of_eq hs]
  · rw [about_cons_of_ne hs]
    by_cases ht : t.id = id
    · rw [about_cons_of_eq ht, about_cons_of_eq ht, about_cons_of_ne hs]
    · rw [about_cons_of_ne ht, about_cons_of_ne ht, about_cons_of_ne hs]

/-! ## Definitions -/

/-- The field of the last definition with an id stands under it. -/
theorem getElem?_ofDefinitions (scope : String) (schema : Schema) (ds : List FieldDefinition)
    (id : String) : (ofDefinitions scope schema ds).fields[id]? =
      (withId id ds).getLast?.map fun d => ⟨d, conventionalTarget schema d⟩ := by
  have hconventional := conventional_ofDefinitions scope schema ds
  have hlast := definition?_ofDefinitions scope schema ds id
  rw [definition?] at hlast
  cases hf : (ofDefinitions scope schema ds).fields[id]? with
  | none =>
    rw [hf, Option.map_none] at hlast
    rw [← hlast, Option.map_none]
  | some f =>
    rw [hf, Option.map_some] at hlast
    rw [← hlast, Option.map_some, ← hconventional.target id f hf]

/-- The last definition of each id alone decides. -/
theorem agrees_ofDefinitions (scope : String) (schema : Schema) {ds es : List FieldDefinition}
    (h : ∀ id, (withId id ds).getLast? = (withId id es).getLast?) :
    (ofDefinitions scope schema ds).Agrees (ofDefinitions scope schema es) := by
  have hempty (ds : List FieldDefinition) := ofDefinitions_eq_build scope schema ds
  refine agrees_of_getElem? ?_ ?_ fun id => ?_
  · rw [hempty, hempty, build, build, scope_foldl, scope_foldl]
  · rw [hempty, hempty, build, build, schema_foldl, schema_foldl]
  · rw [getElem?_ofDefinitions, getElem?_ofDefinitions, h]

theorem length_withId_le {ds : List FieldDefinition} (h : (ds.map (·.id)).Nodup) (id : String) :
    (withId id ds).length ≤ 1 := by
  have hcount : (withId id ds).length = (ds.map (·.id)).count id := by
    rw [List.count, List.countP_map, List.countP_eq_length_filter]
    rfl
  rw [hcount]
  exact List.nodup_iff_count_le_one.1 h id

theorem withId_perm {ds es : List FieldDefinition} (h : (ds.map (·.id)).Nodup) (hp : ds.Perm es)
    (id : String) : withId id ds = withId id es := by
  have hfilter : (withId id ds).Perm (withId id es) := hp.filter _
  have hlength := length_withId_le h id
  match hw : withId id ds with
  | [] =>
    rw [hw] at hfilter
    exact hfilter.nil_eq
  | [d] =>
    rw [hw] at hfilter
    exact List.singleton_perm.1 hfilter
  | d :: e :: rest =>
    rw [hw] at hlength
    exact absurd hlength (by simp)

/-- **The order across ids does not matter.** Steps on different ids commute, and so do definitions
with distinct ids; where ids are repeated, the last definition of each decides. -/
theorem built_alike :
    (∀ (m : Mapping) (s t : BuildStep), s.id ≠ t.id →
      (t.apply (s.apply m)).Agrees (s.apply (t.apply m))) ∧
    ∀ (scope : String) (schema : Schema) (ds : List FieldDefinition),
      (∀ es, (ds.map (·.id)).Nodup → ds.Perm es →
        (ofDefinitions scope schema ds).Agrees (ofDefinitions scope schema es)) ∧
      (∀ id, (ofDefinitions scope schema ds).definition? id = (withId id ds).getLast?) ∧
      ∀ es, (∀ id, (withId id ds).getLast? = (withId id es).getLast?) →
        (ofDefinitions scope schema ds).Agrees (ofDefinitions scope schema es) := by
  refine ⟨fun m s t h => ?_, fun scope schema ds => ⟨fun es hnodup hperm => ?_,
    definition?_ofDefinitions scope schema ds, fun es => agrees_ofDefinitions scope schema⟩⟩
  · have hswap : ([s, t].foldl BuildStep.apply m).Agrees ([t, s].foldl BuildStep.apply m) :=
      agrees_foldl m (about_swap h)
    exact hswap
  · exact agrees_ofDefinitions scope schema fun id => by rw [withId_perm hnodup hperm id]

/-- The kind is declared before its herd and after it, and the age is declared again. -/
theorem earlyKind_built_alike :
    let m := empty "HERDERS" {}
    let kind : BuildStep := .field "herd.kind" .text
    let herd : BuildStep := .grid "herd" "cattle"
    let first :=
      [FieldDefinition.plain "herd.kind" .text, .plain "age" .number, .plain "herd" .grid]
    let last := [FieldDefinition.plain "age" .number, .plain "herd" .grid, .plain "herd.kind" .text]
    let again := .plain "age" .text :: last
    kind.id ≠ herd.id ∧
      (kind.apply m).check = .error (.gridWithoutTable "herd.kind" "herd") ∧
      (herd.apply (kind.apply m)).check = .ok () ∧
      (herd.apply (kind.apply m)).Agrees (kind.apply (herd.apply m)) ∧
      (first.map (·.id)).Nodup ∧ first.Perm last ∧
      (ofDefinitions "HERDERS" {} first).Agrees (ofDefinitions "HERDERS" {} last) ∧
      (∀ id, (withId id again).getLast? = (withId id last).getLast?) ∧
      (ofDefinitions "HERDERS" {} again).Agrees (ofDefinitions "HERDERS" {} last) := by
  intro m kind herd first last again
  have hid : kind.id ≠ herd.id := by decide
  have hnodup : (first.map (·.id)).Nodup := by decide
  have hperm : first.Perm last := by decide
  have hlast (id : String) : (withId id again).getLast? = (withId id last).getLast? := by
    by_cases hage : "age" = id
    · subst hage
      decide
    · exact congrArg List.getLast? (withId_cons_of_ne (d := .plain "age" .text) hage last)
  obtain ⟨hswap, hdefinitions⟩ := built_alike
  exact ⟨hid, by decide +kernel, by decide +kernel, hswap m kind herd hid, hnodup, hperm,
    (hdefinitions "HERDERS" {} first).1 last hnodup hperm, hlast,
    (hdefinitions "HERDERS" {} again).2.2 last hlast⟩

end Mapping

end Eligibility
