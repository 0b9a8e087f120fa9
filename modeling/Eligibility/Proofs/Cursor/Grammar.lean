import Eligibility.Proofs.Cursor.Basic

/-!
# The grammar by a cursor

Every part of a script has a reader that moves a cursor over it.

* `Walk.value`, `Walk.valuePass`, `Walk.values`: literals and lists of them;
* `Walk.functionCall`, `Walk.comparison`: leaves;
* `Level.read`, `Level.chain`, **`Walk.condition`**: conditions;
* `Walk.clause`, `Walk.clausePass`, `Walk.clauses`: one clause, one pass of the loop over the
  clauses of a block, and the loop;
* `Walk.header`, `Walk.body`, `Walk.block`, `Walk.rule`: blocks;
* `Walk.itemPass`, **`Walk.script`**: one pass of the loop over the parts of a script, and the loop.
-/

namespace Eligibility

/-- The halt of a reader that lacks something. -/
def Expected.halt (e : Expected) (p : Position) : Halt := .lacks ⟨p, e⟩

/-- The function that a token names. -/
def Token.function? (t : Token) : Option GridFunction :=
  match t.kind with
  | .function f => some f
  | _ => none

/-- A token of a given kind, as it is. -/
def Token.self? (k : TokenKind) (t : Token) : Option Token := if t.kind = k then some t else none

namespace Walk

/-! ## Values -/

def value : Walk Value := consume Token.value? Expected.value.halt

/-- The values with another one, if there is a comma. -/
def valuePass (vs : List Value) : Walk (Option (List Value)) := do
  match ← eat (Token.ofKind? .comma) with
  | some _ => do
    let v ← value
    return some (vs ++ [v])
  | none => return none

def values : Walk (List Value) := do
  let v ← value
  Loop.run ⟨valuePass⟩ [v]

/-! ## Leaves -/

/-- The values of a grid check, if any. -/
def checkValues (f : GridFunction) : Walk (List Value) := do
  if f.isGridCheck then
    match ← eat (Token.ofKind? .comma) with
    | some _ => values
    | none => return []
  else return []

/-- The trailing comparison of an aggregation, if any. -/
def trailing (f : GridFunction) : Walk (Option (Operator × Value)) := do
  if f.isAggregation then
    match ← eat Token.binary? with
    | some op => do
      let v ← value
      return some (op, v)
    | none => return none
  else return none

/-- A function call. -/
def functionCall : Walk Leaf := do
  let t ← peek
  match t.function? with
  | some f => do
    let _ ← advance
    openParen Expected.openFunction.halt
    let target ← consume Token.field? Expected.functionField.halt
    let vs ← checkValues f
    closeParen Expected.closeFunction.halt
    let comparison ← trailing f
    return .call ⟨f, target, vs, comparison, t.position⟩
  | none => fail (.misplaced · "Expected function name")

/-- The operand that an operator asks for. -/
def operand (op : Operator) (negated : Bool) : Walk Operand :=
  match op with
  | .isEmpty | .isNotEmpty => return .none
  | .between => do
    let low ← value
    consume (Token.ofKind? .and) Expected.rangeAnd.halt
    let high ← value
    return .range low high
  | .isIn => do
    openParen (Expected.openList negated).halt
    let vs ← values
    closeParen (Expected.closeList negated).halt
    return .list vs
  | _ => do
    let v ← value
    return .single v

/-- A field with an operator and its operand. -/
def comparison : Walk Condition := do
  let t ← consume (Token.self? .identifier) (.misplaced · "Expected field identifier")
  let op ← consume Token.operator? Expected.operator.halt
  let o ← operand op.1 op.2
  let c : Condition := .leaf (.comparison ⟨t.text, op.1, o, t.position⟩)
  return if op.2 then .not c else c

end Walk

/-! ## Conditions -/

namespace Level

open Walk

mutual

/-- A condition of a level. -/
def read : Level → Walk Condition
  | .disjunction => do
    let c ← Level.conjunction |>.read
    Level.conjunction |>.chain .or .or c
  | .conjunction => do
    let c ← Level.unary |>.read
    Level.unary |>.chain .and .and c
  | .unary => do
    match ← eat (Token.ofKind? .not) with
    | some _ => do
      skipNewlines
      let c ← Level.primary |>.read
      return .not c
    | none => Level.primary |>.read
  | .primary => do
    skipNewlines
    match (← peek).opening? with
    | some .group => do
      openParen (.misplaced · "Expected '('")
      let c ← Level.disjunction |>.read
      closeParen Expected.closeGroup.halt
      return .group c
    | some (.call ..) => do
      let l ← functionCall
      return .leaf l
    | some (.field ..) => Walk.comparison
    | none => fail Expected.condition.halt
partial_fixpoint

/-- The rest of a chain of conditions of a level, after the condition already read. -/
def chain (operand : Level) (k : TokenKind) (join : Condition → Condition → Condition)
    (c : Condition) : Walk Condition := do
  match ← eatContinued (Token.ofKind? k) with
  | some _ => do
    skipNewlines
    let b ← operand |>.read
    operand |>.chain k join (join c b)
  | none => return c
partial_fixpoint

end

end Level

namespace Walk

def condition : Walk Condition := Level.disjunction.read

/-! ## Clauses -/

/-- A number, which is cut off after its whole part. -/
def integer (e : Expected) : Walk Int64 := do
  let t ← consume (Token.self? .number) e.halt
  match t.number? with
  | some x => return x.truncate
  | none => throw (e.halt t.position)

/-- A score: a number that a separate sign may precede. -/
def score : Walk Int64 := do
  match ← eat (Token.ofKind? .minus) with
  | some _ => do
    let n ← integer (.number .score)
    return negateSaturated n
  | none => do
    let _ ← eat (Token.ofKind? .plus)
    integer (.number .score)

/-- What a clause sets, after its keyword and colon. -/
def settingValue : Clause → Walk Setting
  | .type => return .ruleType (← consume Token.ruleType? Expected.ruleType.halt)
  | .category => return .category (← consume Token.category? Expected.category.halt)
  | .mandatory => return .mandatory (← consume Token.boolean? Expected.boolean.halt)
  | .order => return .order (← integer (.number .order))
  | .weight => return .weight (← integer (.number .weight))
  | .score => return .score (← score)
  | .passMessage =>
    return .passMessage (← consume Token.string? (Expected.string .passMessage).halt)
  | .failMessage =>
    return .failMessage (← consume Token.string? (Expected.string .failMessage).halt)
  | .when => do
    skipNewlines
    return .condition (← condition)

/-- A clause with its keyword. -/
def clause (c : Clause) : Walk Setting := do
  let _ ← advance
  if c = .when then settingValue c
  else do
    consume (Token.ofKind? .colon) (Expected.colon c).halt
    settingValue c

/-- One pass of the loop over clauses: the rule with one more part set, unless there is no more. -/
def clausePass (r : Rule) : Walk (Option Rule) := do
  skipNewlines
  match (← peek).clause? with
  | some c => do
    let s ← clause c
    return some (s.apply r)
  | none => return none

/-- The rule with all parts set that the clauses set. -/
def clauses (r : Rule) : Walk Rule := Loop.run ⟨clausePass⟩ r

/-! ## Blocks -/

/-- The keyword and the name of a block. -/
def header : Walk Rule := do
  let start ← consume (Token.self? .rule) (.misplaced · "Expected RULE keyword")
  let name ← consume Token.string? Expected.ruleName.halt
  return { Rule.named name with startLine := start.position.line }

/-- A block up to its last clause. -/
def body : Walk Rule := do
  let r ← header
  clauses r

/-- A block, with the line on which it ends. -/
def block : Walk Rule := do
  let r ← body
  let line ← previousLine
  return { r with endLine := line }

/-- Warn of a rule without a condition. -/
def warn (r : Rule) : Walk Unit := do
  if r.condition.isNone then
    write fun d => d.pushWarning ⟨⟨r.startLine, 1⟩, .noCondition r.name⟩

/-- A block with the warning of it, if any. -/
def rule : Walk Rule := do
  let r ← block
  warn r
  return r

/-! ## Scripts -/

/-- One pass of the loop over the parts of a script, unless there is no more part. -/
def itemPass : Walk (Option Unit) := do
  skipNewlines
  let t ← peek
  if t.kind = .eof then return none
  else if t.kind = .rule then do
    let r ← rule
    write fun d => d.pushRule r
    return some ()
  else do
    let t ← advance
    write fun d => d.pushWarning ⟨t.position, .strayToken t.text⟩
    return some ()

/-- All parts of a script. -/
def script : Walk Unit := Loop.run ⟨fun _ => itemPass⟩ ()

end Walk

end Eligibility
