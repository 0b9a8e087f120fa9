import Eligibility.Json.Basic
import Eligibility.Ruleset.Basic

/-!
# Rulesets as JSON

* `CompiledRule.toJson`, `CompilationWarning.toJson`, **`Ruleset.toJson`**.
-/

namespace Eligibility

def CompiledRule.toJson (r : CompiledRule) : Json :=
  .object [("ruleName", .string r.name), ("ruleCode", .string r.code),
    ("ruleType", .string r.ruleType.name), ("mandatory", .bool r.mandatory),
    ("score", .ofOption .ofInt64 r.score), ("whereClause", .string r.whereClause),
    ("selectExpression", .string r.selectExpression),
    ("usedFields", .ofList .string r.usedFields)]

def CompilationWarning.toJson (w : CompilationWarning) : Json :=
  .object [("rule", .ofOption .string w.rule), ("line", .ofNat w.position.line),
    ("column", .ofNat w.position.column), ("message", .string w.message)]

def Ruleset.toJson (r : Ruleset) : Json :=
  .object [("rulesetCode", .string r.code), ("scopeCode", .string r.scope),
    ("totalRules", .ofNat r.totalRules), ("inclusionRules", .ofNat r.inclusionRules),
    ("exclusionRules", .ofNat r.exclusionRules), ("priorityRules", .ofNat r.priorityRules),
    ("bonusRules", .ofNat r.bonusRules), ("eligibilityWhereClause", .string r.eligibilityClause),
    ("exclusionWhereClause", .string r.exclusionClause),
    ("scoreExpression", .string r.scoreExpression),
    ("eligibilityCheckQuery", .string r.eligibilityQuery),
    ("scoringQuery", .string r.scoringQuery), ("fullEligibilityQuery", .string r.fullQuery),
    ("compiledRules", .ofList CompiledRule.toJson r.rules),
    ("compilationWarnings", .ofList CompilationWarning.toJson r.warnings)]

end Eligibility
