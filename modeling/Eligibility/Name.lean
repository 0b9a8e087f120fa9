import Eligibility.Condition.Operator
import Eligibility.Rule.RuleType

/-!
# Reading stored names

* `UnknownName`: the names that are refused, with their `message`;
* `Operator.read`, `GridFunction.read`, `RuleType.read`.
-/

namespace Eligibility

/-- A name that no operator, function or rule type has. -/
inductive UnknownName where
  | operator (name : String)
  | function (name : String)
  | ruleType (name : String)
  deriving DecidableEq, Repr

def UnknownName.message : UnknownName → String
  | operator s => s!"unknown operator '{s}'"
  | function s => s!"unknown function '{s}'"
  | ruleType s => s!"unknown rule type '{s}'"

def Operator.read (s : String) : Except UnknownName Operator :=
  match ofName? s with
  | some op => .ok op
  | none => .error (.operator s)

def GridFunction.read (s : String) : Except UnknownName GridFunction :=
  match ofName? s with
  | some f => .ok f
  | none => .error (.function s)

def RuleType.read (s : String) : Except UnknownName RuleType :=
  match ofName? s with
  | some t => .ok t
  | none => .error (.ruleType s)

end Eligibility
