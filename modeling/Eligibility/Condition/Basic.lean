import Eligibility.Condition.Operator
import Eligibility.Condition.Value
import Eligibility.Script.Position

/-!
# Conditions

A condition is a tree of conjunctions, disjunctions, negations and explicit groups over leaves. A
leaf compares a field with an operand or calls a function on a grid.

* `Operand`, `Comparison`, `FunctionCall`, `Leaf`, **`Condition`**;
* `Condition.leaves`, `Condition.position`, `Condition.ungrouped`;
* `Condition.text`: the condition as a script writes it; only explicit groups have parentheses.
-/

namespace Eligibility

/-- The right-hand side of a comparison. -/
inductive Operand where
  | none
  | single (v : Value)
  | range (low high : Value)
  | list (vs : List Value)
  deriving DecidableEq

/-- A field compared with an operand. -/
structure Comparison where
  field : String
  op : Operator
  operand : Operand
  position : Position := {}
  deriving DecidableEq

/-- A function on a grid or a grid child. -/
structure FunctionCall where
  function : GridFunction
  target : String
  /-- The values of a grid check. -/
  values : List Value := []
  /-- The trailing comparison of an aggregation. -/
  comparison : Option (Operator × Value) := none
  position : Position := {}
  deriving DecidableEq

/-- A condition without parts. -/
inductive Leaf where
  | comparison (c : Comparison)
  | call (f : FunctionCall)
  deriving DecidableEq

/-- A condition. -/
inductive Condition where
  | leaf (l : Leaf)
  | and (a b : Condition)
  | or (a b : Condition)
  | not (c : Condition)
  /-- Explicit parentheses. -/
  | group (c : Condition)
  deriving DecidableEq

def Leaf.position : Leaf → Position
  | comparison c => c.position
  | call f => f.position

namespace Condition

/-- The leaves from left to right. -/
def leaves : Condition → List Leaf
  | leaf l => [l]
  | and a b | or a b => a.leaves ++ b.leaves
  | not c | group c => c.leaves

def leafCount (c : Condition) : Nat := c.leaves.length

/-- The place of the first leaf. -/
def position : Condition → Position
  | leaf l => l.position
  | and a _ | or a _ => a.position
  | not c | group c => c.position

/-- The condition without the groups around it. -/
def ungrouped : Condition → Condition
  | group c => c.ungrouped
  | c => c

end Condition

/-! ## Script text -/

/-- Values separated by commas. -/
def Value.listText (vs : List Value) : String := ", ".intercalate (vs.map Value.text)

def Comparison.text (c : Comparison) : String :=
  let head := c.field ++ " " ++ c.op.symbol
  match c.operand with
  | .none => head
  | .single v => head ++ " " ++ v.text
  | .range low high => head ++ " " ++ low.text ++ " AND " ++ high.text
  | .list vs => head ++ " (" ++ Value.listText vs ++ ")"

def FunctionCall.text (f : FunctionCall) : String :=
  let values := if f.values = [] then "" else ", " ++ Value.listText f.values
  let tail := match f.comparison with
    | some (op, v) => " " ++ op.symbol ++ " " ++ v.text
    | none => ""
  f.function.name ++ "(" ++ f.target ++ values ++ ")" ++ tail

def Leaf.text : Leaf → String
  | comparison c => c.text
  | call f => f.text

/-- A negated list comparison, which a script writes with `NOT IN`. -/
def Condition.excludedList? : Condition → Option (String × List Value)
  | leaf (.comparison ⟨field, .isIn, .list vs, _⟩) => some (field, vs)
  | _ => none

def Condition.text : Condition → String
  | leaf l => l.text
  | and a b => a.text ++ " AND " ++ b.text
  | or a b => a.text ++ " OR " ++ b.text
  | not c =>
    match c.excludedList? with
    | some (field, vs) => field ++ " NOT IN (" ++ Value.listText vs ++ ")"
    | none => "NOT " ++ c.text
  | group c => "(" ++ c.text ++ ")"

end Eligibility
