import Eligibility.Plan.Rule

/-!
# Compiled rulesets

* `CompiledRule`, `CompilationWarning`, **`Ruleset`**: what a compiled script is stored as;
* `Ruleset.rule?`, `Ruleset.usedFields`, `Ruleset.countOf`.
-/

namespace Eligibility

/-- The SQL of one rule. -/
structure CompiledRule where
  name : String
  code : String
  ruleType : RuleType
  mandatory : Bool
  score : Option Int64
  /-- The predicate. -/
  whereClause : String
  /-- The score of a bonus rule, or one or zero for any other. -/
  selectExpression : String
  /-- The ids used, in order of first use. -/
  usedFields : List String
  deriving DecidableEq, Repr

/-- A warning, and the code of the rule that it is about. -/
structure CompilationWarning where
  rule : Option String
  position : Position
  message : String
  deriving DecidableEq, Repr

def CompilationWarning.text (w : CompilationWarning) : String :=
  match w.rule with
  | some r => s!"rule {r} (line {w.position.line}, column {w.position.column}): {w.message}"
  | none => w.message

/-- The SQL of a script. -/
structure Ruleset where
  code : String
  scope : String
  totalRules : Nat
  inclusionRules : Nat
  exclusionRules : Nat
  priorityRules : Nat
  bonusRules : Nat
  /-- Whether a candidate is eligible, the exclusions aside. -/
  eligibilityClause : String
  /-- Whether a candidate is disqualified. -/
  exclusionClause : String
  scoreExpression : String
  eligibilityQuery : String
  scoringQuery : String
  fullQuery : String
  rules : List CompiledRule
  warnings : List CompilationWarning
  deriving DecidableEq, Repr

namespace Ruleset

/-- The first rule with a code. -/
def rule? (r : Ruleset) (code : String) : Option CompiledRule := r.rules.find? (·.code = code)

/-- The ids used by any rule, in order of first use. -/
def usedFields (r : Ruleset) : List String := distinct (r.rules.flatMap (·.usedFields))

/-- The stored number of rules of a type. -/
def countOf (r : Ruleset) : RuleType → Nat
  | .inclusion => r.inclusionRules
  | .exclusion => r.exclusionRules
  | .priority => r.priorityRules
  | .bonus => r.bonusRules

def describe (r : Ruleset) : String :=
  s!"CompiledRuleset({r.code} for {r.scope}: {r.totalRules} rules, {r.warnings.length} warnings)"

end Ruleset

end Eligibility
