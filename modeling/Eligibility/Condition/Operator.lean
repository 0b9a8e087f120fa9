import Eligibility.Text.Blank
import Eligibility.Text.Cut

/-!
# Operators and grid functions

* `Operator`: the comparison operators, with their script `symbol` and the stored names that
  `Operator.ofName?` reads;
* `GridFunction`: the aggregations (`COUNT`, `SUM`, `AVG`, `MIN`, `MAX`) and the grid checks
  (`HAS_ANY`, `HAS_ALL`, `HAS_NONE`).
-/

namespace Eligibility

/-- A comparison operator. -/
inductive Operator where
  | eq | neq | gt | gte | lt | lte
  | contains | startsWith | endsWith
  | between | isIn | isEmpty | isNotEmpty
  deriving DecidableEq, Repr

namespace Operator

/-- All operators, in the order of their listing. -/
def all : List Operator :=
  [eq, neq, gt, gte, lt, lte, contains, startsWith, endsWith, between, isIn, isEmpty, isNotEmpty]

/-- The operator as a script writes it. -/
def symbol : Operator → String
  | eq => "="
  | neq => "!="
  | gt => ">"
  | gte => ">="
  | lt => "<"
  | lte => "<="
  | contains => "CONTAINS"
  | startsWith => "STARTS WITH"
  | endsWith => "ENDS WITH"
  | between => "BETWEEN"
  | isIn => "IN"
  | isEmpty => "IS EMPTY"
  | isNotEmpty => "IS NOT EMPTY"

/-- Operators of the form `field operator value`. -/
def isBinary : Operator → Bool
  | between | isIn | isEmpty | isNotEmpty => false
  | _ => true

/-- The stored names of the operators, in upper case without spaces and underscores. -/
def names : List (String × Operator) :=
  [("=", eq), ("==", eq), ("EQ", eq), ("EQUALS", eq),
    ("!=", neq), ("<>", neq), ("NEQ", neq), ("NE", neq), ("NOTEQUALS", neq),
    (">", gt), ("GT", gt), (">=", gte), ("GTE", gte), ("GE", gte),
    ("<", lt), ("LT", lt), ("<=", lte), ("LTE", lte), ("LE", lte),
    ("CONTAINS", contains), ("STARTSWITH", startsWith), ("ENDSWITH", endsWith),
    ("BETWEEN", between), ("IN", isIn), ("NOTIN", isIn),
    ("ISEMPTY", isEmpty), ("ISNOTEMPTY", isNotEmpty)]

/-- The operator of a stored name: letter case, spaces, underscores and blanks around the name do
not matter. -/
def ofName? (s : String) : Option Operator :=
  names.lookup (Text.replace ' ' "" (Text.replace '_' "" (Text.upper (Text.trim s))))

end Operator

/-- A function over the rows of a grid. -/
inductive GridFunction where
  | count | sum | avg | min | max
  | hasAny | hasAll | hasNone
  deriving DecidableEq, Repr

namespace GridFunction

/-- All functions, in the order of their listing. -/
def all : List GridFunction := [count, sum, avg, min, max, hasAny, hasAll, hasNone]

def name : GridFunction → String
  | count => "COUNT"
  | sum => "SUM"
  | avg => "AVG"
  | min => "MIN"
  | max => "MAX"
  | hasAny => "HAS_ANY"
  | hasAll => "HAS_ALL"
  | hasNone => "HAS_NONE"

/-- Aggregations take a trailing comparison; the other functions are grid checks and take a list
of values. -/
def isAggregation : GridFunction → Bool
  | count | sum | avg | min | max => true
  | hasAny | hasAll | hasNone => false

def isGridCheck (f : GridFunction) : Bool := !f.isAggregation

/-- The function of a stored name, in any letter case and with blanks around it. -/
def ofName? (s : String) : Option GridFunction :=
  all.find? fun f => f.name = Text.upper (Text.trim s)

end GridFunction

end Eligibility
