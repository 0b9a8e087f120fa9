import Eligibility.Condition.Operator
import Eligibility.Field.FieldType

/-!
# Warnings of compilation

* `PlanWarning`: why the SQL of a rule may not do what the rule says, with its `message`.
-/

namespace Eligibility

/-- Why the SQL of a rule may not do what the rule says. -/
inductive PlanWarning where
  | unknownField (id : String)
  /-- A grid is compared as if it were a column. -/
  | comparedGrid (id : String)
  | operatorNotApplicable (op : Operator) (id : String) (fieldType : FieldType)
  | malformedOperand (op : Operator) (id : String)
  /-- A function is called on a field that is no grid. -/
  | notAGrid (f : GridFunction) (id : String)
  | functionNotPermitted (f : GridFunction) (id : String)
  /-- An aggregation of values is called on a whole grid. -/
  | aggregatedGrid (f : GridFunction) (id : String)
  | resultNotComparable (op : Operator) (f : GridFunction)
  /-- All of no values are asked for. -/
  | nothingToHave (id : String)
  /-- A grid check with values is called on a whole grid. -/
  | valuesOfGrid (f : GridFunction) (id : String)
  | noCondition (rule : String)
  | noScore (rule : String)
  | duplicateCode (code rule : String)
  | scopeMismatch (mapping ruleset : String)
  deriving DecidableEq, Repr

namespace PlanWarning

def message : PlanWarning → String
  | unknownField id => s!"Unknown field '{id}'"
  | comparedGrid id =>
    s!"Grid field '{id}' can only be used inside a function such as COUNT or HAS_ANY"
  | operatorNotApplicable op id t =>
    s!"Operator '{op.symbol}' is not applicable to field '{id}' ({t.name})"
  | malformedOperand op id => s!"Operator '{op.symbol}' has a malformed operand on field '{id}'"
  | notAGrid f id => s!"Function {f.name} needs a grid field, '{id}' is not a grid"
  | functionNotPermitted f id => s!"Function {f.name} is not permitted for field '{id}'"
  | aggregatedGrid f id => s!"Function {f.name} needs a grid child field such as '{id}.<column>'"
  | resultNotComparable op f => s!"Operator '{op.symbol}' cannot compare the result of {f.name}"
  | nothingToHave id => s!"HAS_ALL({id}) without values always matches"
  | valuesOfGrid f id =>
    s!"Function {f.name} with values needs a grid child field such as '{id}.<column>'"
  | noCondition r => s!"Rule '{r}' has no WHEN condition and always matches"
  | noScore r => s!"BONUS rule '{r}' has no SCORE and contributes 0"
  | duplicateCode c r => s!"Duplicate rule code '{c}' (rule '{r}')"
  | scopeMismatch m r => s!"Field mapping is for scope '{m}' but the ruleset targets scope '{r}'"

end PlanWarning

end Eligibility
