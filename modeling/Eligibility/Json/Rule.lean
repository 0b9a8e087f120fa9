import Eligibility.Json.Condition
import Eligibility.Rule.Basic

/-!
# Rules as JSON

* **`Rule.toJson`**, **`Rule.ofJson?`**;
* `RuleSummary.toJson`.
-/

namespace Eligibility

def RuleType.ofJson? (j : Json) : Option RuleType :=
  j.toText?.bind fun s => all.find? (·.name = s)

def Rule.toJson (r : Rule) : Json :=
  .object [("name", .string r.name), ("code", .string r.code),
    ("ruleType", .string r.ruleType.name), ("category", .ofOption .string r.category),
    ("mandatory", .bool r.mandatory), ("order", .ofOption .ofInt64 r.order),
    ("condition", .ofOption Condition.toJson r.condition), ("score", .ofOption .ofInt64 r.score),
    ("weight", .ofOption .ofInt64 r.weight), ("passMessage", .ofOption .string r.passMessage),
    ("failMessage", .ofOption .string r.failMessage), ("startLine", .ofNat r.startLine),
    ("endLine", .ofNat r.endLine)]

def Rule.ofJson? (j : Json) : Option Rule :=
  return {
    name := ← (j.get "name").toText?
    code := ← (j.get "code").toText?
    ruleType := ← RuleType.ofJson? (j.get "ruleType")
    category := ← (j.get "category").toOption? Json.toText?
    mandatory := ← (j.get "mandatory").toBool?
    order := ← (j.get "order").toOption? Json.toInt64?
    condition := ← (j.get "condition").toOption? Condition.ofJson?
    score := ← (j.get "score").toOption? Json.toInt64?
    weight := ← (j.get "weight").toOption? Json.toInt64?
    passMessage := ← (j.get "passMessage").toOption? Json.toText?
    failMessage := ← (j.get "failMessage").toOption? Json.toText?
    startLine := ← (j.get "startLine").toNat?
    endLine := ← (j.get "endLine").toNat? }

def RuleSummary.toJson (s : RuleSummary) : Json :=
  .object [("name", .string s.name), ("code", .string s.code), ("type", .string s.ruleType.name),
    ("conditionCount", .ofNat s.conditionCount)]

end Eligibility
