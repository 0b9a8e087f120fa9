import Eligibility.Field.Definition
import Std.Data.TreeMap

/-!
# Field mappings

A mapping says where the fields of one scope are stored. Base fields are columns of the base table,
grids are child tables, and grid children are columns of those tables.

* `Schema`: the tables, aliases and literals of a database;
* `Mapping`, with `ofDefinitions` and the steps `withDefinition`, `withColumn`, `withGrid`;
* `FieldRef`, **`Mapping.resolve?`**, `gridTable?`, `columnExpression?`;
* `MappingError`, **`Mapping.check`**: whether every name is usable in SQL.
-/

namespace Eligibility

/-- The conventions of a database. -/
structure Schema where
  baseTable : String := "app_fd_farmer_registry"
  baseAlias : String := "b"
  keyColumn : String := "id"
  /-- Stands before a field id to form its column name. -/
  columnPrefix : String := "c_"
  /-- Stands before a grid id to form its table name. -/
  tablePrefix : String := "app_fd_"
  gridAlias : String := "g"
  /-- The column of a grid table that holds the key of the base row. -/
  gridForeignKey : String := "c_parentId"
  trueLiteral : String := "'Y'"
  falseLiteral : String := "'N'"
  deriving DecidableEq, Repr

/-- The key of the base row. -/
def Schema.keyExpression (s : Schema) : String := s.baseAlias ++ "." ++ s.keyColumn

/-- A field and its target: the table of a grid, the column of any other field. -/
structure MappedField where
  definition : FieldDefinition
  target : String
  deriving DecidableEq

/-- Where the fields of a scope are stored. -/
structure Mapping where
  scope : String
  schema : Schema
  fields : Std.TreeMap String MappedField

namespace Mapping

/-! ## Building -/

/-- A mapping without fields. -/
def empty (scope : String) (schema : Schema) : Mapping := ⟨scope, schema, ∅⟩

/-- The target that a definition has by the conventions of the schema. -/
def conventionalTarget (s : Schema) (d : FieldDefinition) : String :=
  if d.isGrid ∨ d.fieldType = .grid then s.tablePrefix ++ d.id
  else s.columnPrefix ++ (Text.cut? '.' d.id).elim d.id (·.2)

def insert (m : Mapping) (id : String) (f : MappedField) : Mapping :=
  { m with fields := m.fields.insert id f }

/-- Add a field, or replace the one with its id. -/
def withDefinition (m : Mapping) (d : FieldDefinition) : Mapping :=
  m.insert d.id ⟨d, conventionalTarget m.schema d⟩

def withField (m : Mapping) (id : String) (fieldType : FieldType) : Mapping :=
  m.withDefinition (.plain id fieldType)

/-- Change the target of a field; an unknown one is added as text. -/
def withColumn (m : Mapping) (id column : String) : Mapping :=
  match m.fields[id]? with
  | some f => m.insert id { f with target := column }
  | none => m.insert id ⟨.plain id .text, column⟩

/-- Store a field as a grid in a table; an unknown one is added. -/
def withGrid (m : Mapping) (id table : String) : Mapping :=
  match m.fields[id]? with
  | some f => m.insert id ⟨{ f.definition with fieldType := .grid, isGrid := true }, table⟩
  | none => m.insert id ⟨.plain id .grid, table⟩

/-- The mapping of definitions by the conventions of a schema. -/
def ofDefinitions (scope : String) (schema : Schema) (ds : List FieldDefinition) : Mapping :=
  ds.foldl withDefinition (empty scope schema)

/-! ## Looking up -/

def contains (m : Mapping) (id : String) : Bool := m.fields.contains id

def definition? (m : Mapping) (id : String) : Option FieldDefinition :=
  m.fields[id]?.map (·.definition)

/-- The definitions in the order of their ids. -/
def definitions (m : Mapping) : List FieldDefinition := m.fields.values.map (·.definition)

/-- The table of a grid. -/
def gridTable? (m : Mapping) (id : String) : Option String :=
  m.fields[id]?.bind fun f => if f.definition.isGrid then some f.target else none

end Mapping

/-- Where a field is stored. -/
inductive FieldRef where
  | base (column : String) (definition : FieldDefinition)
  | grid (table : String) (definition : FieldDefinition)
  | gridChild (table column : String) (definition : FieldDefinition)
  deriving DecidableEq

def FieldRef.definition : FieldRef → FieldDefinition
  | base _ d | grid _ d | gridChild _ _ d => d

namespace Mapping

/-- Where the field with an id is stored. A child of a grid without a table is nowhere. -/
def resolve? (m : Mapping) (id : String) : Option FieldRef :=
  m.fields[id]?.bind fun f =>
    if f.definition.isGrid then some (.grid f.target f.definition)
    else match f.definition.parent? with
      | some grid => (m.gridTable? grid).map fun table => .gridChild table f.target f.definition
      | none => some (.base f.target f.definition)

/-- The qualified column of a field that is not a grid. -/
def columnExpression? (m : Mapping) (id : String) : Option String :=
  (m.resolve? id).bind fun
    | .base column _ => some (m.schema.baseAlias ++ "." ++ column)
    | .gridChild _ column _ => some (m.schema.gridAlias ++ "." ++ column)
    | .grid _ _ => none

/-- The column that a grid child has by convention. -/
def conventionalChild? (m : Mapping) (id : String) : Option String :=
  (Text.cut? '.' id).map fun p => m.schema.columnPrefix ++ p.2

end Mapping

/-! ## Checking -/

/-- Why SQL cannot be written against a mapping. -/
inductive MappingError where
  | emptySetting (name : String)
  | invalidIdentifier (text : String)
  | gridWithoutTable (field grid : String)
  deriving DecidableEq, Repr

def MappingError.message : MappingError → String
  | emptySetting s => s!"schema setting '{s}' must not be empty"
  | invalidIdentifier s => s!"'{s}' is not a valid SQL identifier"
  | gridWithoutTable f g =>
    s!"grid child field '{f}' refers to grid '{g}', which has no table"

/-- ASCII letters, digits and underscores, not starting with a digit. -/
def isPlainName : List Char → Bool
  | [] => false
  | c :: cs => (c.isAlpha || c == '_') && cs.all fun c => c.isAlphanum || c == '_'

/-- Plain names joined by dots. -/
def isQualifiedName (cs : List Char) : Bool := (Text.pieces (· == '.') cs).all isPlainName

/-- A text is a plain name, or several joined by dots where `dotted`. -/
def checkName (dotted : Bool) (s : String) : Except MappingError Unit :=
  if if dotted then isQualifiedName s.toList else isPlainName s.toList then .ok ()
  else .error (.invalidIdentifier s)

/-- The settings that must not be blank. -/
def Schema.required (s : Schema) : List (String × String) :=
  [("base_table", s.baseTable), ("base_alias", s.baseAlias), ("key_column", s.keyColumn),
    ("grid_alias", s.gridAlias), ("grid_foreign_key", s.gridForeignKey),
    ("true_literal", s.trueLiteral), ("false_literal", s.falseLiteral)]

def Schema.check (s : Schema) : Except MappingError Unit := do
  s.required.forM fun (name, text) =>
    if Text.isBlankText text then .error (.emptySetting name) else .ok ()
  [s.baseAlias, s.keyColumn, s.gridAlias, s.gridForeignKey].forM (checkName false)
  checkName true s.baseTable

namespace Mapping

/-- The target of a field is a name of its kind, and the grid of a child has a table. -/
def checkField (m : Mapping) (f : MappedField) : Except MappingError Unit := do
  checkName f.definition.isGrid f.target
  if f.definition.isGrid then return
  match f.definition.parent? with
  | none => return
  | some grid =>
    if (m.gridTable? grid).isNone then .error (.gridWithoutTable f.definition.id grid)

/-- Check the schema, then the fields in the order of their ids. -/
def check (m : Mapping) : Except MappingError Unit := do
  m.schema.check
  m.fields.values.forM m.checkField

end Mapping

end Eligibility
