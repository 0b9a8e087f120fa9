import Eligibility.Proofs.Field.Resolution
import Eligibility.Proofs.Registry.Lookup

/-!
# Names by convention

In a mapping of definitions the conventions of the schema choose every target. They go by the type
and by the flag of a definition; where the field is stored goes by the flag alone.

* `Mapping.Conventional`, `conventional_ofDefinitions`: every target is the one by convention;
* `Mapping.exists_of_resolve?`: the field that an id resolves to;
* `FieldRef.FollowsNames`, **`Mapping.named_ofDefinitions`**: the names that ids resolve to;
* `unflaggedHerd_misnamed`: a grid by its type that is stored as a column.
-/

namespace Eligibility

/-! ## Targets -/

namespace Mapping

/-- The targets are those that the definitions have by the conventions of the schema. -/
structure Conventional (s : Schema) (m : Mapping) : Prop where
  schema : m.schema = s
  target (id : String) (f : MappedField) (hf : m.fields[id]? = some f) :
    f.target = conventionalTarget s f.definition

theorem conventional_empty (scope : String) (s : Schema) : (empty scope s).Conventional s where
  schema := rfl
  target id f hf := by
    rw [empty, Std.TreeMap.getElem?_emptyc] at hf
    cases hf

/-- A definition that is added, or takes the place of another one, has its target by convention. -/
theorem Conventional.withDefinition {s : Schema} {m : Mapping} (hm : m.Conventional s)
    (d : FieldDefinition) : (m.withDefinition d).Conventional s where
  schema := hm.schema
  target id f hf := by
    rw [Mapping.withDefinition, Mapping.insert, Std.TreeMap.getElem?_insert] at hf
    split at hf
    · cases hf
      rw [hm.schema]
    · exact hm.target id f hf

theorem conventional_ofDefinitions (scope : String) (s : Schema) (ds : List FieldDefinition) :
    (ofDefinitions scope s ds).Conventional s := by
  have hfold (m : Mapping) (hm : m.Conventional s) :
      (ds.foldl Mapping.withDefinition m).Conventional s := by
    induction ds generalizing m with
    | nil => exact hm
    | cons d ds ih => exact ih _ (hm.withDefinition d)
  exact hfold _ (conventional_empty scope s)

/-- An id resolves to its field: to a grid where the field is flagged as one, else by the grid that
the id of its definition belongs to. -/
theorem exists_of_resolve? {m : Mapping} {id : String} {r : FieldRef}
    (h : m.resolve? id = some r) : ∃ f, m.fields[id]? = some f ∧
      (f.definition.isGrid = true ∧ r = .grid f.target f.definition ∨
        f.definition.isGrid = false ∧
          (f.definition.parent? = none ∧ r = .base f.target f.definition ∨
            ∃ grid table, f.definition.parent? = some grid ∧ m.gridTable? grid = some table ∧
              r = .gridChild table f.target f.definition)) := by
  obtain ⟨f, hf, hr⟩ := Option.bind_eq_some_iff.1 h
  refine ⟨f, hf, ?_⟩
  split at hr
  · rename_i hgrid
    cases hr
    exact .inl ⟨hgrid, rfl⟩
  rename_i hgrid
  refine .inr ⟨Bool.not_eq_true _ ▸ hgrid, ?_⟩
  split at hr
  · rename_i grid hparent
    obtain ⟨table, htable, rfl⟩ := Option.map_eq_some_iff.1 hr
    exact .inr ⟨grid, table, hparent, htable, rfl⟩
  · rename_i hparent
    cases hr
    exact .inl ⟨hparent, rfl⟩

end Mapping

/-! ## Names -/

/-- The definition is one of a grid by its type and not by its flag. -/
def FieldDefinition.Unflagged (d : FieldDefinition) : Prop :=
  d.fieldType = .grid ∧ d.isGrid = false

/-- The id without the part up to its first dot. -/
def localName (id : String) : String :=
  match Text.cut? '.' id with
  | some (_, child) => child
  | none => id

namespace FieldRef

/-- The table of a grid, or the column of any other field. -/
def target : FieldRef → String
  | base column _ | gridChild _ column _ => column
  | grid table _ => table

/-- The names of an id: a grid is a table, and any other field is a column. The table of a child is
that of the part of the id before the dot. -/
def FollowsNames (s : Schema) (id : String) : FieldRef → Prop
  | grid table _ => table = s.tablePrefix ++ id
  | base column _ => column = s.columnPrefix ++ localName id
  | gridChild table column _ => column = s.columnPrefix ++ localName id ∧
      ∃ grid child, Text.cut? '.' id = some (grid, child) ∧ table = s.tablePrefix ++ grid

end FieldRef

theorem conventionalTarget_of_column {s : Schema} {d : FieldDefinition} (hgrid : d.isGrid = false)
    (h : ¬ d.Unflagged) : Mapping.conventionalTarget s d = s.columnPrefix ++ localName d.id := by
  have hcolumn : ¬ (d.isGrid = true ∨ d.fieldType = .grid) := by
    rintro (hflag | htype)
    · rw [hgrid] at hflag
      cases hflag
    · exact h ⟨htype, hgrid⟩
  rw [Mapping.conventionalTarget, if_neg hcolumn, localName]
  cases Text.cut? '.' d.id <;> rfl

namespace Mapping

section Fields

variable {scope : String} {s : Schema} {ds : List FieldDefinition} {id : String}

/-- A field is found by the id of its definition. -/
theorem definition_id_ofDefinitions {f : MappedField}
    (hf : (ofDefinitions scope s ds).fields[id]? = some f) : f.definition.id = id := by
  rw [ofDefinitions_eq_build] at hf
  exact keyed_build _ _ _ id f hf

/-- The table of a grid has the name of the grid. -/
theorem gridTable?_ofDefinitions {table : String}
    (h : (ofDefinitions scope s ds).gridTable? id = some table) : table = s.tablePrefix ++ id := by
  obtain ⟨f, hf, htable⟩ := Option.bind_eq_some_iff.1 h
  split at htable
  · rename_i hgrid
    cases htable
    rw [(conventional_ofDefinitions scope s ds).target id f hf, conventionalTarget,
      if_pos (.inl hgrid), definition_id_ofDefinitions hf]
  · cases htable

end Fields

/-- **An id in a mapping of definitions** resolves to the last definition with it, under the names
of the id, unless the definition is that of a grid by its type alone: then a column has the name of
a table. -/
theorem named_ofDefinitions (scope : String) (s : Schema) (ds : List FieldDefinition) {id : String}
    {r : FieldRef} (h : (ofDefinitions scope s ds).resolve? id = some r) :
    (withId id ds).getLast? = some r.definition ∧
      (r.definition.isGrid = true ↔ ∃ table, r = .grid table r.definition) ∧
      (¬ r.definition.Unflagged → r.FollowsNames s id) ∧
      (r.definition.Unflagged → r.target = s.tablePrefix ++ id) := by
  obtain ⟨f, hf, hr⟩ := exists_of_resolve? h
  have hid := definition_id_ofDefinitions hf
  have htarget := (conventional_ofDefinitions scope s ds).target id f hf
  have hlast : (withId id ds).getLast? = some f.definition := by
    rw [← definition?_ofDefinitions scope s, definition?, hf]
    rfl
  have htable (hgrid : f.definition.isGrid = true ∨ f.definition.fieldType = .grid) :
      f.target = s.tablePrefix ++ id := by
    rw [htarget, conventionalTarget, if_pos hgrid, hid]
  have hcolumn (hgrid : f.definition.isGrid = false) (hflag : ¬ f.definition.Unflagged) :
      f.target = s.columnPrefix ++ localName id := by
    rw [htarget, conventionalTarget_of_column hgrid hflag, hid]
  obtain ⟨hgrid, rfl⟩ | ⟨hgrid, ⟨-, rfl⟩ | ⟨grid, table, hparent, hparentTable, rfl⟩⟩ := hr
  · exact ⟨hlast, ⟨fun _ => ⟨_, rfl⟩, fun _ => hgrid⟩, fun _ => htable (.inl hgrid),
      fun hunflagged => htable (.inr hunflagged.1)⟩
  · have hflag := Bool.eq_false_iff.1 hgrid
    refine ⟨hlast, ⟨fun h => absurd h hflag, ?_⟩, hcolumn hgrid,
      fun hunflagged => htable (.inr hunflagged.1)⟩
    rintro ⟨_, ⟨⟩⟩
  · have hflag := Bool.eq_false_iff.1 hgrid
    refine ⟨hlast, ⟨fun h => absurd h hflag, ?_⟩, fun hunflagged => ⟨hcolumn hgrid hunflagged, ?_⟩,
      fun hunflagged => htable (.inr hunflagged.1)⟩
    · rintro ⟨_, ⟨⟩⟩
    · rw [FieldDefinition.parent?, hid] at hparent
      obtain ⟨⟨parent, child⟩, hcut, rfl⟩ := Option.map_eq_some_iff.1 hparent
      exact ⟨parent, child, hcut, gridTable?_ofDefinitions hparentTable⟩

/-- The herd is a text first and a grid later, and its child has a second dot. -/
theorem laterHerd_named :
    let kind := FieldDefinition.plain "herd.kind.de" .lookup
    let m := ofDefinitions "HERDERS" {} [kind, .plain "herd" .text, .plain "herd" .grid]
    m.resolve? "herd.kind.de" = some (.gridChild "app_fd_herd" "c_kind.de" kind) ∧
      ¬ kind.Unflagged ∧
      (FieldRef.gridChild "app_fd_herd" "c_kind.de" kind).FollowsNames {} "herd.kind.de" := by
  intro kind m
  have hr : m.resolve? "herd.kind.de" = some (.gridChild "app_fd_herd" "c_kind.de" kind) := by
    decide +kernel
  have hflag : ¬ kind.Unflagged := fun h => nomatch h.1
  exact ⟨hr, hflag, (named_ofDefinitions "HERDERS" {} _ hr).2.2.1 hflag⟩

/-- A herd that is a grid by its type alone is stored in a column, which has the name of its
table. -/
theorem unflaggedHerd_misnamed :
    let herd : FieldDefinition := { FieldDefinition.plain "herd" .grid with isGrid := false }
    let m := ofDefinitions "HERDERS" {} [herd]
    m.check = .ok () ∧ m.resolve? "herd" = some (.base "app_fd_herd" herd) ∧
      ¬ (FieldRef.base "app_fd_herd" herd).FollowsNames {} "herd" := by
  have hname : "app_fd_herd" ≠ ({} : Schema).columnPrefix ++ localName "herd" := by decide
  exact ⟨by rfl, by decide +kernel, hname⟩

end Mapping

end Eligibility
