import Eligibility.Distinct
import Eligibility.Plan.Leaf
import Eligibility.Rule.Basic

/-!
# Plans of conditions and rules

* **`Condition.predicate`**: the predicate of a condition, with the parentheses that SQL needs;
* `Condition.ids`, `Condition.warnings`: the fields used and the warnings, leaf by leaf;
* `RulePlan`, **`Rule.plan`**: the predicate, score, fields and warnings of a rule.
-/

namespace Eligibility

open Sql (Predicate Case)

/-! ## Conditions -/

namespace Condition

def isOr : Condition → Bool
  | or _ _ => true
  | _ => false

def isGroup : Condition → Bool
  | group _ => true
  | _ => false

/-- The list comparison that a condition is, the groups around it aside. -/
def list? (c : Condition) : Option Comparison :=
  match c.ungrouped with
  | leaf (.comparison c) => if c.op = .isIn then some c else none
  | _ => none

/-- Parentheses around a predicate that lacks them. -/
def parenIf (b : Bool) (p : Predicate) : Predicate := if b then .paren p else p

/-- The predicate of a condition. A disjunction inside a conjunction is put in parentheses, and so
is what a negation applies to; a negated list comparison becomes a comparison of its own. -/
def predicate (m : Mapping) : Condition → Predicate
  | leaf l => (l.plan m false).predicate
  | and a b => .and (parenIf a.isOr (a.predicate m)) (parenIf b.isOr (b.predicate m))
  | or a b => .or (a.predicate m) (b.predicate m)
  | not c =>
    match c.list? with
    | some l => (l.plan m true).predicate
    | none => .not (parenIf (!c.isGroup) (c.predicate m))
  | group c => .paren (c.predicate m)

/-- The ids that the leaves use, in order of use. -/
def ids (m : Mapping) (c : Condition) : List String :=
  c.leaves.flatMap fun l => (l.plan m false).ids

/-- The warnings of the leaves, each at the place of its leaf. -/
def warnings (m : Mapping) (c : Condition) : List (Position × PlanWarning) :=
  c.leaves.flatMap fun l => (l.plan m false).warnings.map (l.position, ·)

end Condition

/-! ## Rules -/

/-- What compiling a rule gives. -/
structure RulePlan where
  rule : Rule
  predicate : Predicate
  ids : List String
  warnings : List (Position × PlanWarning)

namespace RulePlan

/-- The number that the rule yields where its predicate is true: the score of a bonus rule, and one
for any other rule. -/
def yields (p : RulePlan) : Int64 :=
  if p.rule.ruleType = .bonus then p.rule.score.getD 0 else 1

/-- The score of a bonus rule, or the mark of a rule that holds. -/
def case (p : RulePlan) : Case := ⟨p.predicate, p.yields⟩

/-- The rule has to hold for a candidate to be eligible. -/
def gates (p : RulePlan) : Bool :=
  p.rule.mandatory && (p.rule.ruleType = .inclusion || p.rule.ruleType = .priority)

/-- The rule disqualifies a candidate when it holds. -/
def excludes (p : RulePlan) : Bool := p.rule.ruleType = .exclusion

/-- The rule adds to the score of a candidate. -/
def scores (p : RulePlan) : Bool := p.rule.ruleType = .bonus

end RulePlan

namespace Rule

/-- The start of the rule's block. -/
def start (r : Rule) : Position := ⟨r.startLine, 1⟩

/-- A bonus rule without a score is warned of. -/
def scoreWarnings (r : Rule) : List (Position × PlanWarning) :=
  if r.ruleType = .bonus ∧ r.score = none then [(r.start, .noScore r.name)] else []

/-- The plan of a rule; one without a condition always matches. -/
def plan (m : Mapping) (r : Rule) : RulePlan :=
  match r.condition with
  | some c => ⟨r, c.predicate m, distinct (c.ids m), c.warnings m ++ r.scoreWarnings⟩
  | none => ⟨r, .always, [], (r.start, .noCondition r.name) :: r.scoreWarnings⟩

end Rule

end Eligibility
