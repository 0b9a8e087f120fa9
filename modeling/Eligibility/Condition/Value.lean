import Eligibility.Number.Shortest

/-!
# Values

* `Value`: a literal of a condition, or a bare word;
* `Value.ofNumber?`: the value of a number in a script;
* `Value.plain`: the value as text without quotes; `Value.text`: the value as a script writes it.
-/

namespace Eligibility

/-- A literal of a condition. -/
inductive Value where
  | int (n : Int64)
  | float (x : Binary64)
  | bool (b : Bool)
  | string (s : String)
  /-- A bare word: an enumeration code or the id of another field. -/
  | identifier (s : String)
  deriving DecidableEq

namespace Value

/-- A number with a point is a binary64 number. One without is a whole number if it is within the
64-bit integers. -/
def ofNumber? (s : String) : Option Value :=
  if '.' ∈ s.toList then (Binary64.ofText? s).map float
  else ((Decimal.int64? s).map int).or ((Binary64.ofText? s).map float)

def isNumeric : Value → Bool
  | int _ | float _ => true
  | _ => false

/-- The value as text, without quotes. -/
def plain : Value → String
  | int n => toString n.toInt
  | float x => x.text
  | bool true => "true"
  | bool false => "false"
  | string s | identifier s => s

/-- The value as a script writes it. -/
def text : Value → String
  | bool true => "YES"
  | bool false => "NO"
  | string s => "\"" ++ Text.replace '"' "\\\"" s ++ "\""
  | v => v.plain

end Value

end Eligibility
