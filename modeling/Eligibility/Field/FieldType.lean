import Eligibility.Condition.Operator

/-!
# Field types

* `FieldType`: the data type of a field, with its `name` and the lenient reading `ofName`;
* `FieldType.operators`: the operators that a type accepts;
* `FieldType.nullMeansEmpty`.
-/

namespace Eligibility

/-- The data type of a field. -/
inductive FieldType where
  | text | number | date | boolean | lookup
  /-- A repeating child table. -/
  | grid
  deriving DecidableEq, Repr

namespace FieldType

def name : FieldType → String
  | text => "TEXT"
  | number => "NUMBER"
  | date => "DATE"
  | boolean => "BOOLEAN"
  | lookup => "LOOKUP"
  | grid => "GRID"

/-- The names of the types other than text. -/
def names : List (String × FieldType) :=
  [("NUMBER", number), ("NUMERIC", number), ("INTEGER", number), ("DECIMAL", number),
    ("DATE", date), ("DATETIME", date), ("BOOLEAN", boolean), ("BOOL", boolean),
    ("LOOKUP", lookup), ("SELECT", lookup), ("GRID", grid)]

/-- The type of a name, in any letter case and with blanks around it; every other name is text. -/
def ofName (s : String) : FieldType := (names.lookup (Text.upper (Text.trim s))).getD text

/-- The operators that a field of the type accepts when its definition lists none. -/
def operators : FieldType → List Operator
  | number | date => [.eq, .neq, .gt, .gte, .lt, .lte, .between, .isIn, .isEmpty, .isNotEmpty]
  | text => [.eq, .neq, .contains, .startsWith, .endsWith, .isIn, .isEmpty, .isNotEmpty]
  | boolean => [.eq, .neq, .isEmpty, .isNotEmpty]
  | lookup => [.eq, .neq, .isIn, .isEmpty, .isNotEmpty]
  | grid => []

/-- Whether emptiness is the null value alone. Other types take the empty text for empty too. -/
def nullMeansEmpty : FieldType → Bool
  | number | date | boolean => true
  | text | lookup | grid => false

end FieldType

end Eligibility
