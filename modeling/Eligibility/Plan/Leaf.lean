import Eligibility.Condition.Basic
import Eligibility.Field.Mapping
import Eligibility.Plan.Warning
import Eligibility.Sql.Predicate

/-!
# Plans of leaves

The plan of a leaf is its SQL predicate, the ids of the fields that it uses, and the warnings that
it gives rise to. What cannot be written becomes `1 = 0` and a warning.

* `Test`, `Comparison.test?`: a comparison whose operand has the shape that its operator needs;
* `Mapping.literal`, `Mapping.literalIds`: values, and the fields that bare words name;
* `Comparison.plan`, `FunctionCall.plan`, **`Leaf.plan`**.
-/

namespace Eligibility

open Sql (Term Predicate RowSource Column Aggregate Relation)

/-- What compiling a leaf gives. -/
structure LeafPlan where
  predicate : Predicate
  /-- The ids used, in order of use. -/
  ids : List String
  warnings : List PlanWarning
  deriving DecidableEq

/-! ## Literals -/

namespace Mapping

/-- The column of the base field that a bare word names. -/
def wordColumn? (m : Mapping) (id : String) : Option Column :=
  match m.resolve? id with
  | some (.base column _) => some ⟨m.schema.baseAlias, column⟩
  | _ => none

/-- A value in SQL. A bare word is the column that it names, or else the text of the word. -/
def literal (m : Mapping) : Value → Term
  | .int n => .int n
  | .float x => .float x
  | .bool true => .verbatim m.schema.trueLiteral
  | .bool false => .verbatim m.schema.falseLiteral
  | .string s => .quoted s
  | .identifier id => (m.wordColumn? id).elim (.quoted id) .column

/-- The field that a value uses. -/
def literalId? (m : Mapping) : Value → Option String
  | .identifier id => (m.wordColumn? id).map fun _ => id
  | _ => none

/-- The fields that values use. -/
def literalIds (m : Mapping) (vs : List Value) : List String := vs.filterMap m.literalId?

/-- The rows of a grid table that belong to the base row. -/
def rows (m : Mapping) (table : String) : RowSource :=
  ⟨table, m.schema.gridAlias, m.schema.gridForeignKey, m.schema.keyExpression⟩

def gridColumn (m : Mapping) (name : String) : Column := ⟨m.schema.gridAlias, name⟩

end Mapping

/-! ## Comparisons -/

/-- The comparison of values that an operator stands for. -/
def Operator.relation? : Operator → Option Relation
  | eq => some .eq
  | neq => some .neq
  | gt => some .gt
  | gte => some .gte
  | lt => some .lt
  | lte => some .lte
  | _ => none

/-- What a comparison asks of a value. -/
inductive Test where
  | empty
  | filled
  | between (low high : Value)
  | oneOf (vs : List Value)
  | like (before after : Bool) (s : String)
  | relation (r : Relation) (v : Value)
  deriving DecidableEq

/-- The test of an operator and an operand of the shape that it needs. -/
def Operator.test? (op : Operator) (operand : Operand) : Option Test :=
  match op, operand with
  | .isEmpty, _ => some .empty
  | .isNotEmpty, _ => some .filled
  | .between, .range low high => some (.between low high)
  | .isIn, .list vs => some (.oneOf vs)
  | .contains, .single v => some (.like true true v.plain)
  | .startsWith, .single v => some (.like false true v.plain)
  | .endsWith, .single v => some (.like true false v.plain)
  | op, .single v => op.relation?.map (.relation · v)
  | _, _ => none

/-- The values that are written as literals. -/
def Test.literals : Test → List Value
  | between low high => [low, high]
  | oneOf vs => vs
  | relation _ v => [v]
  | _ => []

/-- A test of a term. Where the null value alone is empty, the empty text is not asked for. Only a
list test has a negated form of its own. -/
def Test.predicate (m : Mapping) (t : Term) (nullOnly negated : Bool) : Test → Predicate
  | empty =>
    if nullOnly then .isNull t else .paren (.or (.isNull t) (.compare t .eq (.quoted "")))
  | filled =>
    if nullOnly then .isNotNull t
    else .paren (.and (.isNotNull t) (.compare t .neq (.quoted "")))
  | between low high => .between t (m.literal low) (m.literal high)
  | oneOf vs =>
    if negated then .isNotIn t (vs.map m.literal) else .isIn t (vs.map m.literal)
  | like before after s => .like t before after s
  | relation r v => .compare t r (m.literal v)

namespace Comparison

def test? (c : Comparison) : Option Test := c.op.test? c.operand

/-- The comparison on a term. -/
def planOn (m : Mapping) (c : Comparison) (t : Term) (nullOnly negated : Bool) : LeafPlan :=
  match c.test? with
  | some test => ⟨test.predicate m t nullOnly negated, m.literalIds test.literals, []⟩
  | none => ⟨.never, [], [.malformedOperand c.op c.field]⟩

/-- The comparison on a column of a grid: some row of the grid passes it, or none where negated. -/
def planOnGrid (m : Mapping) (c : Comparison) (table column : String) (nullOnly negated : Bool) :
    LeafPlan :=
  let p := c.planOn m (.column (m.gridColumn column)) nullOnly false
  { p with predicate := .negatedIf negated (.rowExistsWhere (m.rows table) p.predicate) }

/-- The warning of an operator that a field does not allow. -/
def operatorWarnings (c : Comparison) (d : FieldDefinition) : List PlanWarning :=
  if d.allowsOperator c.op then [] else [.operatorNotApplicable c.op d.id d.fieldType]

/-- The table and column by convention of an unknown child of a known grid. -/
def unknownChild? (m : Mapping) (c : Comparison) : Option (String × String) :=
  (Text.cut? '.' c.field).bind fun (grid, _) =>
    (m.gridTable? grid).bind fun table => (m.conventionalChild? c.field).map (table, ·)

/-- A comparison without the use of its own field. -/
def planRest (m : Mapping) (c : Comparison) (negated : Bool) : LeafPlan :=
  let warned (ws : List PlanWarning) (p : LeafPlan) : LeafPlan :=
    { p with warnings := ws ++ p.warnings }
  match m.resolve? c.field with
  | some (.base column d) =>
    warned (c.operatorWarnings d) <|
      c.planOn m (.column ⟨m.schema.baseAlias, column⟩) d.fieldType.nullMeansEmpty negated
  | some (.gridChild table column d) =>
    warned (c.operatorWarnings d) <|
      c.planOnGrid m table column d.fieldType.nullMeansEmpty negated
  | some (.grid _ _) =>
    ⟨if negated then .not (.paren .never) else .never, [], [.comparedGrid c.field]⟩
  | none =>
    warned [.unknownField c.field] <|
      match c.unknownChild? m with
      | some (table, column) => c.planOnGrid m table column false negated
      | none => c.planOn m (.name c.field) false negated

/-- The plan of a comparison; `negated` is for list comparisons under a negation. -/
def plan (m : Mapping) (negated : Bool) (c : Comparison) : LeafPlan :=
  let p := c.planRest m negated
  { p with ids := c.field :: p.ids }

end Comparison

/-! ## Functions -/

/-- What a function is computed on: the table of a grid, and a column of it for a grid child. -/
structure CallTarget where
  table : String
  column : Option Column
  deriving DecidableEq

namespace FunctionCall

/-- The target of a call. A name that is not mapped is a grid or a grid child by convention; a base
field is no target. -/
def target? (m : Mapping) (f : FunctionCall) : Option CallTarget :=
  match m.resolve? f.target with
  | some (.grid table _) => some ⟨table, none⟩
  | some (.gridChild table column _) => some ⟨table, some (m.gridColumn column)⟩
  | some (.base _ _) => none
  | none =>
    match Text.cut? '.' f.target with
    | some (grid, child) =>
      some ⟨(m.gridTable? grid).getD (m.schema.tablePrefix ++ grid),
        some (m.gridColumn (m.schema.columnPrefix ++ child))⟩
    | none => some ⟨m.schema.tablePrefix ++ f.target, none⟩

/-- The warnings about the target. -/
def targetWarnings (m : Mapping) (f : FunctionCall) : List PlanWarning :=
  let permitted (d : FieldDefinition) : List PlanWarning :=
    if d.allowsFunction f.function then [] else [.functionNotPermitted f.function d.id]
  match m.resolve? f.target with
  | some (.grid _ d) | some (.gridChild _ _ d) => permitted d
  | some (.base _ _) => [.notAGrid f.function f.target]
  | none => [.unknownField f.target]

/-- The aggregate that a function computes; only rows can be counted without a column. -/
def aggregate? (f : GridFunction) (column : Option Column) : Option Aggregate :=
  match f, column with
  | .count, none => some .countRows
  | .count, some c => some (.count c)
  | .sum, some c => some (.sum c)
  | .avg, some c => some (.avg c)
  | .min, some c => some (.min c)
  | .max, some c => some (.max c)
  | _, _ => none

/-- An aggregation. Without a comparison, a count or sum is above zero and any other result is
there. -/
def planAggregate (m : Mapping) (f : FunctionCall) (t : CallTarget) : LeafPlan :=
  match aggregate? f.function t.column with
  | none => ⟨.never, [], [.aggregatedGrid f.function f.target]⟩
  | some a =>
    let result : Term := .aggregate a (m.rows t.table)
    match f.comparison with
    | some (op, v) =>
      match op.relation? with
      | some r => ⟨.compare result r (m.literal v), m.literalIds [v], []⟩
      | none => ⟨.never, [], [.resultNotComparable op f.function]⟩
    | none =>
      match f.function with
      | .count | .sum => ⟨.compare result .gt (.int 0), [], []⟩
      | _ => ⟨.isNotNull result, [], []⟩

/-- A row whose column is a value. -/
def rowHas (m : Mapping) (table : String) (c : Column) (v : Value) : Predicate :=
  .rowExistsWhere (m.rows table) (.compare (.column c) .eq (m.literal v))

/-- A grid check. Without values it asks for a row, or for a row with a value in the column. -/
def planCheck (m : Mapping) (f : FunctionCall) (t : CallTarget) : LeafPlan :=
  let rows := m.rows t.table
  let negated := f.function = .hasNone
  match f.values, t.column with
  | [], column =>
    if f.function = .hasAll then ⟨.always, [], [.nothingToHave f.target]⟩
    else match column with
      | none => ⟨.negatedIf negated (.rowExists rows), [], []⟩
      | some c => ⟨.negatedIf negated (.rowExistsWhere rows (.isNotNull (.column c))), [], []⟩
  | _ :: _, none => ⟨.never, [], [.valuesOfGrid f.function f.target]⟩
  | v :: vs, some c =>
    let ids := m.literalIds (v :: vs)
    if f.function = .hasAll then
      let first := rowHas m t.table c v
      ⟨if vs = [] then first else .paren (.all (first :: vs.map (rowHas m t.table c))), ids, []⟩
    else
      ⟨.negatedIf negated
        (.rowExistsWhere rows (.isIn (.column c) ((v :: vs).map m.literal))), ids, []⟩

/-- The plan of a call. -/
def plan (m : Mapping) (f : FunctionCall) : LeafPlan :=
  let p : LeafPlan := match f.target? m with
    | none => ⟨.never, [], []⟩
    | some t => if f.function.isAggregation then f.planAggregate m t else f.planCheck m t
  { p with ids := f.target :: p.ids, warnings := f.targetWarnings m ++ p.warnings }

end FunctionCall

/-- The plan of a leaf. -/
def Leaf.plan (m : Mapping) (negated : Bool) : Leaf → LeafPlan
  | comparison c => c.plan m negated
  | call f => f.plan m

end Eligibility
