import Eligibility.Rule.Basic
import Eligibility.Script.Condition

/-!
# Reading rule blocks

A block is the keyword `RULE`, a quoted name and clauses in any order, up to the first token that
opens no clause. Each clause sets one part of the rule; a later clause overrides an earlier one.

* `Setting`, `Setting.apply`: what a clause sets;
* `readSetting`, `readSettings`: one clause after its keyword, and all clauses of a block;
* **`readBlock`**: a rule after its keyword.
-/

namespace Eligibility

/-- What a clause sets. -/
inductive Setting where
  | ruleType (t : RuleType)
  | category (s : String)
  | mandatory (b : Bool)
  | order (n : Int64)
  | condition (c : Condition)
  | score (n : Int64)
  | weight (n : Int64)
  | passMessage (s : String)
  | failMessage (s : String)
  deriving DecidableEq

/-- The rule with one part set. -/
def Setting.apply (r : Rule) : Setting → Rule
  | ruleType t => { r with ruleType := t }
  | category s => { r with category := some s }
  | mandatory b => { r with mandatory := b }
  | order n => { r with order := some n }
  | condition c => { r with condition := some c }
  | score n => { r with score := some n }
  | weight n => { r with weight := some n }
  | passMessage s => { r with passMessage := some s }
  | failMessage s => { r with failMessage := some s }

/-- The rule with all settings applied in order. -/
def Rule.applyAll (r : Rule) (settings : List Setting) : Rule := settings.foldl Setting.apply r

/-! ## Clauses -/

/-- The opposite number; the smallest has the largest for its opposite. -/
def negateSaturated (n : Int64) : Int64 := if n = .minValue then .maxValue else -n

/-- A score: a number that a separate sign may precede. -/
def readScore (ts : List Token) : Reading Int64 ts.length :=
  let number (ts : List Token) := expect false Token.integer? (.number .score) ts
  match next? false (Token.ofKind? .minus) ts with
  | some sign => do
    let n ← number sign.rest
    return (n.map negateSaturated).widen (Nat.le_of_lt sign.lt)
  | none =>
    match next? false (Token.ofKind? .plus) ts with
    | some sign => (number sign.rest).widen (Nat.le_of_lt sign.lt)
    | none => number ts

/-- What a clause sets, after its keyword and colon. -/
def readSettingValue (c : Clause) (ts : List Token) : Reading Setting ts.length :=
  match c with
  | .type => return (← expect false Token.ruleType? .ruleType ts).map .ruleType
  | .category => return (← expect false Token.category? .category ts).map .category
  | .mandatory => return (← expect false Token.boolean? .boolean ts).map .mandatory
  | .order => return (← expect false Token.integer? (.number .order) ts).map .order
  | .weight => return (← expect false Token.integer? (.number .weight) ts).map .weight
  | .score => return (← readScore ts).map .score
  | .passMessage => return (← expect false Token.string? (.string .passMessage) ts).map .passMessage
  | .failMessage => return (← expect false Token.string? (.string .failMessage) ts).map .failMessage
  | .when => do
    let c ← readOr false none (dropNewlines ts)
    return (c.map .condition).widen (length_dropNewlines_le ts)

/-- A clause after its keyword. Every keyword but `WHEN` has a colon. -/
def readSetting (c : Clause) (ts : List Token) : Reading Setting ts.length :=
  if c = .when then readSettingValue c ts
  else do
    let colon ← expect false (Token.ofKind? .colon) (.colon c) ts
    (readSettingValue c colon.rest).widen (Nat.le_of_lt colon.lt)

/-- The clauses of a block. -/
def readSettings (ts : List Token) : Reading (List Setting) (ts.length + 1) :=
  match next? true Token.clause? ts with
  | none => return ⟨[], dropNewlines ts, Nat.lt_succ_of_le (length_dropNewlines_le ts)⟩
  | some c => do
    have hc := c.lt
    let s ← readSetting c.value c.rest
    have hs := s.lt
    let more ← readSettings s.rest
    return ⟨s.value :: more.value, more.rest, by have := more.lt; omega⟩
termination_by ts.length

/-! ## Blocks -/

/-- The line of the last token that is not a line break. -/
def lastLine (ts : List Token) : Nat :=
  (ts.filter (·.kind ≠ .newline)).getLast?.elim 1 (·.position.line)

/-- A rule after its keyword, the token `start`. -/
def readBlock (start : Token) (ts : List Token) : Reading Rule ts.length := do
  let name ← expect false Token.string? .ruleName ts
  let body ← readSettings name.rest
  let taken := (start :: ts).take (ts.length + 1 - body.rest.length)
  let rule := (Rule.named name.value).applyAll body.value
  return ⟨{ rule with startLine := start.position.line, endLine := lastLine taken }, body.rest, by
    have := name.lt; have := body.lt; omega⟩

end Eligibility
