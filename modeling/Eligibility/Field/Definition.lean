import Eligibility.Field.FieldType
import Eligibility.Number.Decimal
import Eligibility.Text.Entries

/-!
# Field definitions

A definition describes one field that a script may name. A dotted id belongs to the grid named
before the first dot.

* `FieldDefinition`, `FieldDefinition.plain`;
* `FieldDefinition.parent?`, `operators`, `allowsOperator`, `allowsFunction`;
* `Record`, **`FieldDefinition.ofRecord?`**: definitions from stored records of texts.
-/

namespace Eligibility

/-- The description of one field. -/
structure FieldDefinition where
  id : String
  label : String
  scope : String := ""
  fieldType : FieldType
  category : String := ""
  /-- None means the operators of the type. -/
  applicableOperators : List Operator := []
  isGrid : Bool
  gridParent : Option String := none
  /-- None means every function. -/
  functions : List GridFunction := []
  lookupForm : Option String := none
  lookupValues : List String := []
  helpText : Option String := none
  displayOrder : Int32 := 100
  deriving DecidableEq

namespace FieldDefinition

/-- A definition with an id and a type alone. -/
def plain (id : String) (fieldType : FieldType) : FieldDefinition :=
  { id, label := id, fieldType, isGrid := fieldType = .grid }

/-- The grid that a dotted id belongs to. -/
def parent? (d : FieldDefinition) : Option String := (Text.cut? '.' d.id).map (·.1)

def isGridChild (d : FieldDefinition) : Bool := d.parent?.isSome

/-- The operators that the field accepts. -/
def operators (d : FieldDefinition) : List Operator :=
  if d.applicableOperators = [] then d.fieldType.operators else d.applicableOperators

def allowsOperator (d : FieldDefinition) (op : Operator) : Bool := op ∈ d.operators

def allowsFunction (d : FieldDefinition) (f : GridFunction) : Bool :=
  d.functions = [] || f ∈ d.functions

end FieldDefinition

/-! ## Stored records -/

/-- A stored record: a text for some of the property names. -/
abbrev Record := String → Option String

/-- The trimmed text of a property; a blank one counts as missing. -/
def Record.property? (r : Record) (key : String) : Option String :=
  ((r key).map Text.trim).filter (· ≠ "")

/-- The entries of a list property. -/
def Record.list (r : Record) (key : String) : List String :=
  (r.property? key).elim [] Text.entries

/-- The definition that a record holds; a record without an id holds none. Operators and functions
that have no known name are dropped. -/
def FieldDefinition.ofRecord? (r : Record) : Option FieldDefinition :=
  (r.property? "fieldId").map fun id =>
    let fieldType := (r.property? "fieldType").elim .text FieldType.ofName
    { id
      label := (r.property? "fieldLabel").getD id
      scope := (r.property? "scopeCode").getD ""
      fieldType
      category := (r.property? "category").getD ""
      applicableOperators := (r.list "applicableOperators").filterMap Operator.ofName?
      isGrid := r.property? "isGrid" = some "Y" || fieldType = .grid
      gridParent := r.property? "gridParentField"
      functions := (r.list "aggregationFunctions").filterMap GridFunction.ofName?
      lookupForm := r.property? "lookupFormId"
      lookupValues := r.list "lookupValues"
      helpText := r.property? "helpText"
      displayOrder := ((r.property? "displayOrder").bind Decimal.int32?).getD 100 }

end Eligibility
