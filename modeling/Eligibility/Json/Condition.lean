import Eligibility.Condition.Basic
import Eligibility.Json.Basic

/-!
# Conditions as JSON

* `Value.toJson`, `Operand.toJson`, `Leaf.toJson`, **`Condition.toJson`**;
* `Value.ofJson?`, `Operand.ofJson?`, `Leaf.ofJson?`, **`Condition.ofJson?`**: reading them back.

JSON has no number that is not finite. The text of such a value holds null, which is no value.
-/

namespace Eligibility

/-! ## Names -/

/-- The name of an operator in a document. -/
def Operator.key : Operator → String
  | eq => "EQ"
  | neq => "NEQ"
  | gt => "GT"
  | gte => "GTE"
  | lt => "LT"
  | lte => "LTE"
  | contains => "CONTAINS"
  | startsWith => "STARTS_WITH"
  | endsWith => "ENDS_WITH"
  | between => "BETWEEN"
  | isIn => "IN"
  | isEmpty => "IS_EMPTY"
  | isNotEmpty => "IS_NOT_EMPTY"

def Operator.ofJson? (j : Json) : Option Operator :=
  j.toText?.bind fun s => all.find? (·.key = s)

def GridFunction.ofJson? (j : Json) : Option GridFunction :=
  j.toText?.bind fun s => all.find? (·.name = s)

def Position.toJson (p : Position) : Json :=
  .object [("line", .ofNat p.line), ("column", .ofNat p.column)]

def Position.ofJson? (j : Json) : Option Position :=
  return ⟨← (j.get "line").toNat?, ← (j.get "column").toNat?⟩

/-! ## Values -/

def Value.toJson : Value → Json
  | int n => .tagged "Int" (.ofInt64 n)
  | float x => .tagged "Float" (.float x)
  | bool b => .tagged "Bool" (.bool b)
  | string s => .tagged "String" (.string s)
  | identifier s => .tagged "Identifier" (.string s)

def Value.ofJson? : Json → Option Value
  | .object [("Int", j)] => j.toInt64?.map int
  | .object [("Float", .float x)] => some (float x)
  | .object [("Bool", j)] => j.toBool?.map bool
  | .object [("String", j)] => j.toText?.map string
  | .object [("Identifier", j)] => j.toText?.map identifier
  | _ => none

/-! ## Leaves -/

def Operand.toJson : Operand → Json
  | none => .string "None"
  | single v => .tagged "Single" v.toJson
  | range low high => .tagged "Range" (.array [low.toJson, high.toJson])
  | list vs => .tagged "List" (.ofList Value.toJson vs)

def Operand.ofJson? : Json → Option Operand
  | .string "None" => some none
  | .object [("Single", j)] => (Value.ofJson? j).map single
  | .object [("Range", .array [low, high])] =>
    return .range (← Value.ofJson? low) (← Value.ofJson? high)
  | .object [("List", j)] => (j.toList? Value.ofJson?).map list
  | _ => .none

def Comparison.toJson (c : Comparison) : Json :=
  .object [("field", .string c.field), ("op", .string c.op.key), ("operand", c.operand.toJson),
    ("position", c.position.toJson)]

def Comparison.ofJson? (j : Json) : Option Comparison :=
  return {
    field := ← (j.get "field").toText?
    op := ← Operator.ofJson? (j.get "op")
    operand := ← Operand.ofJson? (j.get "operand")
    position := ← Position.ofJson? (j.get "position") }

/-- The comparison after an aggregation. -/
def trailingJson (c : Operator × Value) : Json := .array [.string c.1.key, c.2.toJson]

def trailingOfJson? : Json → Option (Operator × Value)
  | .array [op, v] => return (← Operator.ofJson? op, ← Value.ofJson? v)
  | _ => none

def FunctionCall.toJson (f : FunctionCall) : Json :=
  .object [("function", .string f.function.name), ("target", .string f.target),
    ("values", .ofList Value.toJson f.values), ("comparison", .ofOption trailingJson f.comparison),
    ("position", f.position.toJson)]

def FunctionCall.ofJson? (j : Json) : Option FunctionCall :=
  return {
    function := ← GridFunction.ofJson? (j.get "function")
    target := ← (j.get "target").toText?
    values := ← (j.get "values").toList? Value.ofJson?
    comparison := ← (j.get "comparison").toOption? trailingOfJson?
    position := ← Position.ofJson? (j.get "position") }

/-! ## Conditions -/

def Leaf.toJson : Leaf → Json
  | comparison c => .tagged "Comparison" c.toJson
  | call f => .tagged "Function" f.toJson

def Leaf.ofJson? : Json → Option Leaf
  | .object [("Comparison", j)] => (Comparison.ofJson? j).map comparison
  | .object [("Function", j)] => (FunctionCall.ofJson? j).map call
  | _ => none

namespace Condition

def toJson : Condition → Json
  | leaf l => l.toJson
  | and a b => .tagged "And" (.array [a.toJson, b.toJson])
  | or a b => .tagged "Or" (.array [a.toJson, b.toJson])
  | not c => .tagged "Not" c.toJson
  | group c => .tagged "Group" c.toJson

def ofJson? : Json → Option Condition
  | .object [("And", .array [a, b])] => return and (← ofJson? a) (← ofJson? b)
  | .object [("Or", .array [a, b])] => return or (← ofJson? a) (← ofJson? b)
  | .object [("Not", c)] => (ofJson? c).map not
  | .object [("Group", c)] => (ofJson? c).map group
  | j => (Leaf.ofJson? j).map leaf

end Condition

end Eligibility
