import Eligibility.Proofs.Registry.Scopes

/-!
# Looking a field up

A scope's fields are looked up in their sorted list, or in the mapping that is built from it. Both
know the same ids. Where several fields have one id, the list gives the first of them and the
mapping the last.

* `withId`: the fields with an id; `findField_eq_head?`, `Mapping.definition?_ofDefinitions`,
  `Mapping.contains_ofDefinitions`: what each way finds among them;
* `Registry.fields_queries`: queries do not change what later queries answer;
* **`Registry.lookups_run`**; `Registry.ages_disagree`: two fields of one id.
-/

namespace Eligibility

/-! ## Fields of one id -/

/-- The fields with an id. -/
def withId (id : String) (ds : List FieldDefinition) : List FieldDefinition :=
  ds.filter fun d => d.id = id

theorem withId_cons_of_eq {d : FieldDefinition} {id : String} (hd : d.id = id)
    (ds : List FieldDefinition) : withId id (d :: ds) = d :: withId id ds :=
  List.filter_cons_of_pos (decide_eq_true hd)

theorem withId_cons_of_ne {d : FieldDefinition} {id : String} (hd : d.id ≠ id)
    (ds : List FieldDefinition) : withId id (d :: ds) = withId id ds :=
  List.filter_cons_of_neg (by simpa using hd)

theorem findField_eq_head? (ds : List FieldDefinition) (id : String) :
    findField ds id = (withId id ds).head? := by
  rw [findField, withId, List.head?_filter]

namespace Mapping

/-- Adding a field changes what stands under its own id alone. -/
theorem definition?_withDefinition (m : Mapping) (d : FieldDefinition) (id : String) :
    (m.withDefinition d).definition? id = if d.id = id then some d else m.definition? id := by
  simp only [withDefinition, insert, definition?, Std.TreeMap.getElem?_insert,
    Std.LawfulEqCmp.compare_eq_iff_eq]
  by_cases hd : d.id = id
  · rw [if_pos hd, if_pos hd]
    rfl
  · rw [if_neg hd, if_neg hd]

/-- Of the fields added, the last one with an id stands under it. -/
theorem definition?_foldl (m : Mapping) (ds : List FieldDefinition) (id : String) :
    (ds.foldl withDefinition m).definition? id =
      (withId id ds).getLast?.or (m.definition? id) := by
  induction ds generalizing m with
  | nil => rfl
  | cons d ds ih =>
    rw [List.foldl_cons, ih, definition?_withDefinition]
    by_cases hd : d.id = id
    · rw [if_pos hd, withId_cons_of_eq hd, List.getLast?_cons]
      cases (withId id ds).getLast? <;> rfl
    · rw [if_neg hd, withId_cons_of_ne hd]

theorem definition?_ofDefinitions (scope : String) (schema : Schema) (ds : List FieldDefinition)
    (id : String) : (ofDefinitions scope schema ds).definition? id = (withId id ds).getLast? := by
  rw [ofDefinitions, definition?_foldl]
  exact Option.or_none

theorem contains_eq_isSome (m : Mapping) (id : String) :
    m.contains id = (m.definition? id).isSome := by
  rw [contains, definition?, Option.isSome_map, Std.TreeMap.isSome_getElem?_eq_contains]

theorem contains_ofDefinitions (scope : String) (schema : Schema) (ds : List FieldDefinition)
    (id : String) : (ofDefinitions scope schema ds).contains id = (findField ds id).isSome := by
  rw [contains_eq_isSome, definition?_ofDefinitions, findField_eq_head?]
  cases withId id ds <;> simp

end Mapping

namespace Registry

variable {r : Registry} {scope : String}

/-! ## Queries in between -/

/-- A query about a scope does not change its fields. -/
theorem fields_fields_self (r : Registry) (scope : String) :
    ((r.fields scope).2.fields scope).1 = (r.fields scope).1 := by
  obtain ⟨e, -, -, hf⟩ | ⟨-, hf⟩ | ⟨hcan, hf⟩ := r.fields_cases scope
  · rw [hf, hf]
  · rw [congrArg Prod.snd hf]
    exact (agrees_more scope r 1).symm.fields_fst
  · -- The fields just loaded are still live, or they are loaded again from the same source.
    rw [hf]
    obtain ⟨e, he, -, hf'⟩ | ⟨hcan', -⟩ | ⟨-, hf'⟩ := (r.loaded scope).fields_cases scope
    · obtain rfl : ⟨r.held scope, r.now + r.ttl⟩ = e := by simpa [getElem?_cache_loaded] using he
      rw [hf']
    · exact absurd ⟨hcan.available, hcan.told⟩ hcan'
    · rw [hf']
      rfl

theorem fields_fields (r : Registry) (scope scope' : String) :
    ((r.fields scope').2.fields scope).1 = (r.fields scope).1 := by
  by_cases hs : scope' = scope
  · rw [hs, fields_fields_self]
  · exact (r.agrees_fields_of_ne hs).symm.fields_fst

/-- Queries one after the other, each about a scope. -/
def queries (asked : List (String × Query)) : List Step :=
  asked.map fun p => .query p.1 p.2

/-- **Queries do not change the fields that later queries answer from.** -/
theorem fields_queries (r : Registry) (asked : List (String × Query)) (scope : String) :
    ((r.run (queries asked)).fields scope).1 = (r.fields scope).1 := by
  induction asked generalizing r with
  | nil => rfl
  | cons p asked ih =>
    rw [queries, List.map_cons, run_cons, step_query]
    exact (ih _).trans (r.fields_fields scope p.1)

/-! ## Lookups -/

theorem query_fst (r : Registry) (scope : String) (q : Query) :
    (r.query scope q).1 =
      (r.fields scope).1.map fun ds => ds.map fun ds => q.answer scope ds :=
  rfl

/-- **A scope's lookup finds the first field with an id, its mapping holds the last.** They are the
same unless several fields have the id. -/
theorem lookups_run (r : Registry) (ss : List Step) (asked : List (String × Query))
    (scope id : String) (schema : Schema) :
    (∃ err : Option RegistryError, ∀ q : Query,
      ((r.run ss).query scope q).1 = err.map .error ∧
      ((r.run (ss ++ queries asked)).query scope q).1 = err.map .error) ∨
    ∃ ds m, ((r.run ss).query scope .fields).1 = some (.ok (.fields ds)) ∧
      ((r.run (ss ++ queries asked)).query scope (.mapping schema)).1 = some (.ok (.mapping m)) ∧
      ((r.run ss).query scope (.isField id)).1 = some (.ok (.isField (m.contains id))) ∧
      ((r.run ss).query scope (.field id)).1 = some (.ok (.field (withId id ds).head?)) ∧
      m.definition? id = (withId id ds).getLast? ∧
      ((withId id ds).head? = m.definition? id ∨ 2 ≤ (withId id ds).length) := by
  simp only [query_fst, run_append, fields_queries]
  rcases ((r.run ss).fields scope).1 with _ | err | ds
  · exact .inl ⟨none, fun q => ⟨rfl, rfl⟩⟩
  · exact .inl ⟨some err, fun q => ⟨rfl, rfl⟩⟩
  · have hlast := Mapping.definition?_ofDefinitions scope schema ds id
    refine .inr ⟨ds, .ofDefinitions scope schema ds, rfl, rfl, ?_, ?_, hlast, ?_⟩
    · rw [Mapping.contains_ofDefinitions]
      rfl
    · rw [← findField_eq_head?]
      rfl
    · rw [hlast]
      match withId id ds with
      | [] => exact .inl rfl
      | [d] => exact .inl rfl
      | d :: d' :: _ => exact .inr (Nat.le_add_left 2 _)

/-! ## Two fields of one id -/

/-- The age, listed at its place. -/
def ageField (fieldType : FieldType) (place : Int32) : FieldDefinition :=
  { FieldDefinition.plain "age" fieldType with scope := "cow", displayOrder := place }

/-- The age of a cow is kept as a number and as a text. -/
def agesRegistry : Registry :=
  { source := { definitions := [ageField .number 1, ageField .text 2] } }

/-- The lookup gives the number, the mapping has the text. -/
theorem ages_disagree :
    (agesRegistry.query "cow" (.field "age")).1 =
      some (.ok (.field (some (ageField .number 1)))) ∧
    ∃ m, (agesRegistry.query "cow" (.mapping {})).1 = some (.ok (.mapping m)) ∧
      m.definition? "age" = some (ageField .text 2) ∧
      some (ageField .number 1) ≠ m.definition? "age" := by
  have hsort : sortFields [ageField .number 1, ageField .text 2] =
      [ageField .number 1, ageField .text 2] :=
    List.mergeSort_of_pairwise (by decide)
  have hfields : (agesRegistry.fields "cow").1 =
      some (.ok (sortFields [ageField .number 1, ageField .text 2])) := rfl
  rw [hsort] at hfields
  rw [query_fst, query_fst, hfields]
  refine ⟨rfl, .ofDefinitions "cow" {} [ageField .number 1, ageField .text 2], rfl, ?_⟩
  rw [Mapping.definition?_ofDefinitions]
  decide

end Registry

end Eligibility
