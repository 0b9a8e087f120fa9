import Eligibility.Condition.Basic
import Eligibility.Script.Parsed

/-!
# Reading conditions

`OR` binds weaker than `AND`, and `AND` weaker than `NOT`; chains fold to the left. A line may
break before and after `AND` and `OR`, after `NOT`, and anywhere inside parentheses.

* `readValue`, `readValues`: literals and lists of them;
* `readCall`, `readComparison`: the leaves, after their first token;
* **`readOr`**, `readAnd`, `readUnary`, `readPrimary`: conditions.
-/

namespace Eligibility

/-! ## Values -/

def readValue (nested : Bool) (ts : List Token) : Reading Value ts.length :=
  expect nested Token.value? .value ts

/-- Values separated by commas. -/
def readValues (nested : Bool) (ts : List Token) : Reading (List Value) ts.length := do
  let v ← readValue nested ts
  match next? nested (Token.ofKind? .comma) v.rest with
  | none => return v.map ([·])
  | some c =>
    let vs ← readValues nested c.rest
    return ⟨v.value :: vs.value, vs.rest, Nat.lt_trans vs.lt (Nat.lt_trans c.lt v.lt)⟩
termination_by ts.length
decreasing_by exact Nat.lt_trans c.lt v.lt

/-! ## Leaves -/

/-- The values of a grid check, if any: a comma, then a list. -/
def readCheckValues (f : GridFunction) (ts : List Token) :
    Reading (List Value) (ts.length + 1) :=
  match if f.isGridCheck then next? true (Token.ofKind? .comma) ts else none with
  | none => return .stay [] ts
  | some c => (readValues true c.rest).widen (Nat.le_succ_of_le (Nat.le_of_lt c.lt))

/-- The trailing comparison of an aggregation, if any. -/
def readTrailing (nested : Bool) (f : GridFunction) (ts : List Token) :
    Reading (Option (Operator × Value)) (ts.length + 1) :=
  match if f.isAggregation then next? nested Token.binary? ts else none with
  | none => return .stay none ts
  | some op => do
    let v ← readValue nested op.rest
    return ⟨some (op.value, v.value), v.rest, Nat.lt_succ_of_lt (Nat.lt_trans v.lt op.lt)⟩

/-- A function call after the function's name. -/
def readCall (nested : Bool) (f : GridFunction) (position : Position) (ts : List Token) :
    Reading Leaf ts.length := do
  let o ← expect nested (Token.ofKind? .leftParen) .openFunction ts
  let target ← expect true Token.field? .functionField o.rest
  let values ← readCheckValues f target.rest
  let close ← expect true (Token.ofKind? .rightParen) .closeFunction values.rest
  let trailing ← readTrailing nested f close.rest
  return ⟨.call ⟨f, target.value, values.value, trailing.value, position⟩, trailing.rest, by
    have := o.lt; have := target.lt; have := values.lt; have := close.lt; have := trailing.lt
    omega⟩

/-- The operand of a list comparison. -/
def readList (nested negated : Bool) (ts : List Token) : Reading (List Value) ts.length := do
  let o ← expect nested (Token.ofKind? .leftParen) (.openList negated) ts
  let vs ← readValues true o.rest
  let close ← expect true (Token.ofKind? .rightParen) (.closeList negated) vs.rest
  return ⟨vs.value, close.rest, Nat.lt_trans close.lt (Nat.lt_trans vs.lt o.lt)⟩

/-- The operand of a range comparison. -/
def readRange (nested : Bool) (ts : List Token) : Reading (Value × Value) ts.length := do
  let low ← readValue nested ts
  let mid ← expect nested (Token.ofKind? .and) .rangeAnd low.rest
  let high ← readValue nested mid.rest
  return ⟨(low.value, high.value), high.rest, Nat.lt_trans high.lt (Nat.lt_trans mid.lt low.lt)⟩

/-- The operand that an operator asks for. -/
def readOperand (nested : Bool) (op : Operator) (negated : Bool) (ts : List Token) :
    Reading Operand (ts.length + 1) :=
  match op with
  | .isEmpty | .isNotEmpty => return .stay .none ts
  | .between => do
    let r ← readRange nested ts
    return (r.map fun r => .range r.1 r.2).widen (Nat.le_succ _)
  | .isIn => do
    let vs ← readList nested negated ts
    return (vs.map .list).widen (Nat.le_succ _)
  | _ => do
    let v ← readValue nested ts
    return (v.map .single).widen (Nat.le_succ _)

/-- A comparison after the field. -/
def readComparison (nested : Bool) (field : String) (position : Position) (ts : List Token) :
    Reading Condition ts.length := do
  let op ← expect nested Token.operator? .operator ts
  let operand ← readOperand nested op.value.1 op.value.2 op.rest
  let c : Condition := .leaf (.comparison ⟨field, op.value.1, operand.value, position⟩)
  return ⟨if op.value.2 then .not c else c, operand.rest, by
    have := op.lt; have := operand.lt; omega⟩

/-! ## Conditions -/

/-- What a primary condition starts with. -/
inductive Opening where
  | group
  | call (f : GridFunction) (position : Position)
  | field (id : String) (position : Position)

def Token.opening? (t : Token) : Option Opening :=
  match t.kind with
  | .leftParen => some .group
  | .function f => some (.call f t.position)
  | .identifier => some (.field t.text t.position)
  | _ => none

/-- Fold an operand into the chain before it. -/
def chain (join : Condition → Condition → Condition) : Option Condition → Condition → Condition
  | none, c => c
  | some left, c => join left c

mutual

/-- A disjunction, given the part of its chain before it. -/
def readOr (nested : Bool) (left : Option Condition) (ts : List Token) :
    Reading Condition ts.length := do
  let c ← readAnd nested none ts
  match next? true (Token.ofKind? .or) c.rest with
  | none => return c.map (chain .or left)
  | some o =>
    have ho := Nat.lt_of_le_of_lt (length_dropNewlines_le o.rest) (Nat.lt_trans o.lt c.lt)
    let d ← readOr nested (some (chain .or left c.value)) (dropNewlines o.rest)
    return d.widen (Nat.le_of_lt ho)
termination_by 4 * ts.length + 3

/-- A conjunction, given the part of its chain before it. -/
def readAnd (nested : Bool) (left : Option Condition) (ts : List Token) :
    Reading Condition ts.length := do
  let c ← readUnary nested ts
  match next? true (Token.ofKind? .and) c.rest with
  | none => return c.map (chain .and left)
  | some o =>
    have ho := Nat.lt_of_le_of_lt (length_dropNewlines_le o.rest) (Nat.lt_trans o.lt c.lt)
    let d ← readAnd nested (some (chain .and left c.value)) (dropNewlines o.rest)
    return d.widen (Nat.le_of_lt ho)
termination_by 4 * ts.length + 2

/-- A primary condition, negated or not. -/
def readUnary (nested : Bool) (ts : List Token) : Reading Condition ts.length :=
  match next? nested (Token.ofKind? .not) ts with
  | none => readPrimary nested ts
  | some o => do
    have ho := o.lt
    let c ← readPrimary nested o.rest
    return (c.map .not).widen (Nat.le_of_lt ho)
termination_by 4 * ts.length + 1

/-- A group or a leaf. -/
def readPrimary (nested : Bool) (ts : List Token) : Reading Condition ts.length := do
  let o ← expect true Token.opening? .condition ts
  have ho := o.lt
  match o.value with
  | .group =>
    let c ← readOr true none o.rest
    let close ← expect true (Token.ofKind? .rightParen) .closeGroup c.rest
    return ⟨.group c.value, close.rest, Nat.lt_trans close.lt (Nat.lt_trans c.lt o.lt)⟩
  | .call f position =>
    let l ← readCall nested f position o.rest
    return (l.map .leaf).widen (Nat.le_of_lt ho)
  | .field id position => (readComparison nested id position o.rest).widen (Nat.le_of_lt ho)
termination_by 4 * ts.length

end

end Eligibility
