import Eligibility.Token.Kind

/-!
# What a script lacks

* `Expected`: what the grammar asks for at the token where reading a script stops, with its
  `message`.
-/

namespace Eligibility

/-- The clause keyword as a script writes it. -/
def Clause.keyword : Clause → String
  | type => "TYPE"
  | category => "CATEGORY"
  | mandatory => "MANDATORY"
  | order => "ORDER"
  | when => "WHEN"
  | score => "SCORE"
  | weight => "WEIGHT"
  | passMessage => "PASS MESSAGE"
  | failMessage => "FAIL MESSAGE"

/-- What the grammar asks for. -/
inductive Expected where
  | ruleName
  /-- The colon after a clause keyword. -/
  | colon (c : Clause)
  | ruleType | category | boolean
  | number (c : Clause)
  | string (c : Clause)
  /-- The start of a condition. -/
  | condition
  /-- An operator after a field. -/
  | operator
  /-- The `AND` between the ends of a range. -/
  | rangeAnd
  | openFunction | functionField | closeFunction
  | closeGroup
  | openList (negated : Bool)
  | closeList (negated : Bool)
  | value
  deriving DecidableEq, Repr

namespace Expected

/-- The keyword before a list of values. -/
def listKeyword (negated : Bool) : String := if negated then "NOT IN" else "IN"

def message : Expected → String
  | ruleName => "Expected rule name after RULE"
  | colon c => "Expected ':' after " ++ c.keyword
  | ruleType => "Expected rule type (INCLUSION, EXCLUSION, PRIORITY, or BONUS)"
  | category => "Expected category identifier"
  | boolean => "Expected boolean value (YES, NO, TRUE, FALSE, 1, 0)"
  | number c => "Expected number after " ++ c.keyword ++ ":"
  | string c => "Expected string after " ++ c.keyword ++ ":"
  | condition => "Expected condition (field, function, or grouped expression)"
  | operator => "Expected comparison operator"
  | rangeAnd => "Expected AND in BETWEEN expression"
  | openFunction => "Expected '(' after function name"
  | functionField => "Expected field identifier in function"
  | closeFunction => "Expected ')' after function arguments"
  | closeGroup => "Expected ')' after grouped expression"
  | openList negated => "Expected '(' after " ++ listKeyword negated
  | closeList negated => "Expected ')' after " ++ listKeyword negated ++ " values"
  | value => "Expected value (string, number, boolean, or identifier)"

end Expected

end Eligibility
