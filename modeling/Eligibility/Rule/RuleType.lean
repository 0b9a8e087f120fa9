import Eligibility.Text.Blank
import Eligibility.Text.Cut

/-!
# Rule types

* `RuleType`: how a rule takes part in a ruleset, with its `name` and the reading `ofName?`.
-/

namespace Eligibility

/-- How a rule takes part in a ruleset. -/
inductive RuleType where
  /-- Must hold for a candidate to be eligible. -/
  | inclusion
  /-- Disqualifies a candidate when it holds. -/
  | exclusion
  /-- Ranks candidates; a mandatory one also gates eligibility. -/
  | priority
  /-- Adds its score when it holds. -/
  | bonus
  deriving DecidableEq, Repr

namespace RuleType

def all : List RuleType := [inclusion, exclusion, priority, bonus]

def name : RuleType → String
  | inclusion => "INCLUSION"
  | exclusion => "EXCLUSION"
  | priority => "PRIORITY"
  | bonus => "BONUS"

/-- The rule type of a name, in any letter case and with blanks around it. -/
def ofName? (s : String) : Option RuleType :=
  all.find? fun t => t.name = Text.upper (Text.trim s)

end RuleType

end Eligibility
