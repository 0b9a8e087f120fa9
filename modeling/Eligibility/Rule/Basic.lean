import Eligibility.Condition.Basic
import Eligibility.Rule.RuleType

/-!
# Rules

* `Rule`, `Rule.named`: a rule, and the rule that a bare name stands for;
* **`ruleCode`**: the code of a name: its runs of ASCII letters and digits in upper case, joined by
  underscores;
* `RuleSummary`: the overview of a rule.
-/

namespace Eligibility

/-- The characters that a rule code keeps. -/
def isCodeChar (c : Char) : Bool := c.isAlphanum

/-- The code of the characters of a name. A run after an earlier one is set off by an underscore:
`pending` tells that one is due, `begun` that a run has been written. -/
def codeChars (begun pending : Bool) : List Char → List Char
  | [] => []
  | c :: cs =>
    if isCodeChar c then
      (if begun && pending then ['_'] else []) ++ c.toUpper :: codeChars true false cs
    else codeChars begun true cs

/-- The code of a rule name. -/
def ruleCode (name : String) : String := .ofList (codeChars false false name.toList)

/-- One rule of a script. -/
structure Rule where
  name : String
  code : String
  ruleType : RuleType := .inclusion
  category : Option String := none
  mandatory : Bool := true
  order : Option Int64 := none
  condition : Option Condition := none
  score : Option Int64 := none
  weight : Option Int64 := none
  passMessage : Option String := none
  failMessage : Option String := none
  startLine : Nat := 0
  endLine : Nat := 0
  deriving DecidableEq

namespace Rule

/-- A mandatory inclusion rule without a condition. -/
def named (name : String) : Rule := { name, code := ruleCode name }

/-- The number of leaves of the condition. -/
def conditionCount (r : Rule) : Nat := r.condition.elim 0 Condition.leafCount

end Rule

/-- The overview of a rule. -/
structure RuleSummary where
  name : String
  code : String
  ruleType : RuleType
  conditionCount : Nat
  deriving DecidableEq, Repr

def Rule.summary (r : Rule) : RuleSummary := ⟨r.name, r.code, r.ruleType, r.conditionCount⟩

end Eligibility
