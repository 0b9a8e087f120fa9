import Eligibility.Condition.Value

/-!
# SQL terms

* `Sql.quote`, `Sql.likeEscape`: texts inside literals;
* `Sql.RowSource`: the rows of a grid table that belong to the base row;
* `Sql.Aggregate`, **`Sql.Term`**: values, with their SQL `text`.
-/

namespace Eligibility.Sql

/-- A string literal; a quote inside is written twice. -/
def quote (s : String) : String := "'" ++ Text.replace '\'' "''" s ++ "'"

/-- The character that takes the next character of a pattern literally. -/
def escapeChar : Char := '!'

/-- Whether a character has a meaning of its own in a pattern. -/
def isPatternChar (c : Char) : Bool := c == escapeChar || c == '%' || c == '_'

/-- The text with the escape character before every character that has a meaning of its own. -/
def likeEscape (s : String) : String :=
  .ofList (s.toList.flatMap fun c => if isPatternChar c then [escapeChar, c] else [c])

/-- The rows of `table`, named `rowAlias`, whose column `foreignKey` is the key of the base row. -/
structure RowSource where
  table : String
  rowAlias : String
  foreignKey : String
  baseKey : String
  deriving DecidableEq, Repr

def RowSource.text (s : RowSource) : String :=
  s!"FROM {s.table} {s.rowAlias} WHERE {s.rowAlias}.{s.foreignKey} = {s.baseKey}"

/-- A column with the alias of its table. -/
structure Column where
  tableAlias : String
  name : String
  deriving DecidableEq, Repr

def Column.text (c : Column) : String := s!"{c.tableAlias}.{c.name}"

/-- What is computed over the rows of a grid. -/
inductive Aggregate where
  | countRows
  | count (c : Column)
  | sum (c : Column)
  | avg (c : Column)
  | min (c : Column)
  | max (c : Column)
  deriving DecidableEq, Repr

/-- The sum of no rows is zero. -/
def Aggregate.text : Aggregate → String
  | countRows => "COUNT(*)"
  | count c => s!"COUNT({c.text})"
  | sum c => s!"COALESCE(SUM({c.text}), 0)"
  | avg c => s!"AVG({c.text})"
  | min c => s!"MIN({c.text})"
  | max c => s!"MAX({c.text})"

/-- A value of a row. -/
inductive Term where
  | column (c : Column)
  /-- A name that stands for itself. -/
  | name (s : String)
  | int (n : Int64)
  | float (x : Binary64)
  | quoted (s : String)
  /-- SQL text taken from the schema. -/
  | verbatim (s : String)
  | aggregate (a : Aggregate) (rows : RowSource)
  deriving DecidableEq

def Term.text : Term → String
  | column c => c.text
  | name s => s
  | int n => toString n.toInt
  | float x => x.text
  | quoted s => quote s
  | verbatim s => s
  | aggregate a rows => s!"(SELECT {a.text} {rows.text})"

def Term.listText (ts : List Term) : String := ", ".intercalate (ts.map Term.text)

end Eligibility.Sql
