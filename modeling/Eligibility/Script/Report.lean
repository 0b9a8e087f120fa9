import Eligibility.Script.Block
import Eligibility.Text.Blank

/-!
# Reports on scripts

Reading a script never fails: the outcome is a report with the rules or the first place where the
script breaks the grammar, and the warnings gathered before it.

* `Item`, `readItems`: the blocks and stray tokens of a token stream;
* `Warning`, `Located`, `Severity`: diagnostics and their texts;
* `Report`, **`Report.ofText`**: the report on a script.
-/

namespace Eligibility

/-! ## Items -/

/-- A part of a script. -/
inductive Item where
  | rule (r : Rule)
  /-- A token outside the rules. -/
  | stray (t : Token)
  deriving DecidableEq

/-- The parts of a script, up to the first place that breaks the grammar. -/
def readItems (ts : List Token) : List Item × Option Failure :=
  match next? true some ts with
  | none => ([], none)
  | some t =>
    have _ht := t.lt
    if t.value.kind = .rule then
      match readBlock t.value t.rest with
      | .error f => ([], some f)
      | .ok r =>
        have _hr := r.lt
        let more := readItems r.rest
        (.rule r.value :: more.1, more.2)
    else
      let more := readItems t.rest
      (.stray t.value :: more.1, more.2)
termination_by ts.length

/-! ## Diagnostics -/

/-- Something at a place of a script. -/
structure Located (α : Type) where
  position : Position
  cause : α
  deriving DecidableEq, Repr

inductive Severity where
  | error | warning
  deriving DecidableEq, Repr

def Severity.name : Severity → String
  | error => "ERROR"
  | warning => "WARNING"

/-- What a script can be warned of. -/
inductive Warning where
  | strayToken (text : String)
  | noCondition (rule : String)
  deriving DecidableEq, Repr

def Warning.message : Warning → String
  | strayToken s => s!"Unexpected token outside rule: {s}"
  | noCondition s => s!"Rule '{s}' has no WHEN condition"

/-- The line of text that reports a message at a place. -/
def Severity.line (s : Severity) (p : Position) (message : String) : String :=
  s!"{s.name} at line {p.line}, column {p.column}: {message}"

def Located.errorLine (e : Located Expected) : String :=
  Severity.error.line e.position e.cause.message

def Located.warningLine (w : Located Warning) : String :=
  Severity.warning.line w.position w.cause.message

/-- An error as a failure of its own. -/
def Located.failureLine (e : Located Expected) : String :=
  s!"parse error at line {e.position.line}, column {e.position.column}: {e.cause.message}"

def Item.rule? : Item → Option Rule
  | rule r => some r
  | stray _ => none

/-- A stray token is warned of, and a rule without a condition. -/
def Item.warning? : Item → Option (Located Warning)
  | rule r => if r.condition.isNone then some ⟨⟨r.startLine, 1⟩, .noCondition r.name⟩ else none
  | stray t => some ⟨t.position, .strayToken t.text⟩

/-! ## Reports -/

/-- What reading a script gives. -/
structure Report where
  warnings : List (Located Warning)
  outcome : Except (Located Expected) (List Rule)

namespace Report

/-- The place of a failure in a text that ends at `finish`. -/
def locate (finish : Position) (f : Failure) : Located Expected :=
  ⟨f.rest.head?.elim finish (·.position), f.expected⟩

/-- The report on a token stream. -/
def ofTokens (s : TokenStream) : Report :=
  let (items, failure) := readItems s.tokens
  ⟨items.filterMap Item.warning?,
    match failure with
    | none => .ok (items.filterMap Item.rule?)
    | some f => .error (locate s.finish f)⟩

/-- The report on a script; a blank one has no rules. -/
def ofText (text : String) : Report :=
  if Text.isBlankText text then ⟨[], .ok []⟩ else ofTokens (tokenize text)

/-- The rules of a valid script. -/
def rules (r : Report) : List Rule := r.outcome.toOption.getD []

def error? (r : Report) : Option (Located Expected) :=
  match r.outcome with
  | .error e => some e
  | .ok _ => none

def isValid (r : Report) : Bool := r.error?.isNone

def summaries (r : Report) : List RuleSummary := r.rules.map Rule.summary

end Report

end Eligibility
