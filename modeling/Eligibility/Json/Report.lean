import Eligibility.Json.Rule
import Eligibility.Script.Report

/-!
# Reports as JSON

* **`Report.toJson`**;
* `Report.reread?`: the rules that are read from the text of a report;
* `Report.readsBack`: whether they are the rules that were written; the diagnostics of a report are
  texts and places, which always are;
* `Report.rulesRead`.
-/

namespace Eligibility

def Located.errorJson (e : Located Expected) : Json :=
  .object [("line", .ofNat e.position.line), ("column", .ofNat e.position.column),
    ("message", .string e.cause.message), ("severity", .string Severity.error.name)]

def Located.warningJson (w : Located Warning) : Json :=
  .object [("line", .ofNat w.position.line), ("column", .ofNat w.position.column),
    ("message", .string w.cause.message)]

namespace Report

def toJson (r : Report) : Json :=
  .object [("valid", .bool r.isValid), ("ruleCount", .ofNat r.rules.length),
    ("rules", .ofList Rule.toJson r.rules),
    ("ruleSummaries", .ofList RuleSummary.toJson r.summaries),
    ("errors", .ofList Located.errorJson r.error?.toList),
    ("warnings", .ofList Located.warningJson r.warnings)]

def reread? (r : Report) : Option (List Rule) := do
  let j ← r.toJson.reread? Json.deepest
  (j.get "rules").toList? Rule.ofJson?

def readsBack (r : Report) : Bool := r.reread? == some r.rules

/-- The rules that are read from the text of a report; its own if the text cannot be read. -/
def rulesRead (r : Report) : List Rule := r.reread?.getD r.rules

end Report

end Eligibility
