import Eligibility.Field.Mapping
import Eligibility.Sql.Predicate

/-!
# Aliases in subqueries

A subquery gives its table an alias. Inside the subquery that alias hides the same alias outside.

* `NameRule`: when two names are the same;
* `Origin`, `Scope`, `Scope.origin?`: the rows that an alias refers to;
* `RowSource.Correlated`: the rows of a subquery are those that belong to the base row;
* **`Predicate.Correlated`**: so are the rows of every subquery of a predicate, and every column
  refers to the rows that it is meant for.
-/

namespace Eligibility.Sql

/-- A rule by which names are the same. Letter case may matter or not. -/
structure NameRule where
  same : String → String → Bool
  same_self (a : String) : same a a = true

namespace NameRule

def exact : NameRule := ⟨fun a b => a == b, fun a => beq_self_eq_true a⟩

/-- Unquoted names are the same whatever the letter case of ASCII letters. -/
def caseless : NameRule :=
  ⟨fun a b => Text.upper a == Text.upper b, fun a => beq_self_eq_true (Text.upper a)⟩

end NameRule

/-- The rows that an alias stands for. -/
inductive Origin where
  | base
  | grid (table : String)
  deriving DecidableEq

/-- The aliases in reach, the innermost first. -/
abbrev Scope := List (String × Origin)

/-- The rows that an alias refers to: those of the innermost table that has it. -/
def Scope.origin? (names : NameRule) (scope : Scope) (a : String) : Option Origin :=
  (scope.find? fun p => names.same p.1 a).map (·.2)

theorem Scope.origin?_cons (names : NameRule) (scope : Scope) (a b : String) (o : Origin) :
    Scope.origin? names ((a, o) :: scope) b =
      if names.same a b then some o else scope.origin? names b := by
  unfold Scope.origin?
  rw [List.find?_cons]
  cases names.same a b <;> rfl

/-! ## Subqueries -/

/-- The aliases in reach inside a subquery. -/
def RowSource.scope (r : RowSource) (outer : Scope) : Scope := (r.rowAlias, .grid r.table) :: outer

/-- The foreign key is that of the rows of the table, and what it is compared with is the key of the
base row. -/
structure RowSource.Correlated (names : NameRule) (s : Schema) (outer : Scope) (r : RowSource) :
    Prop where
  foreignKey : r.foreignKey = s.gridForeignKey
  own : (r.scope outer).origin? names r.rowAlias = some (.grid r.table)
  key : ∃ a, Text.cut? '.' r.baseKey = some (a, s.keyColumn) ∧
    (r.scope outer).origin? names a = some .base

def Aggregate.columns : Aggregate → List Column
  | countRows => []
  | count c | sum c | avg c | min c | max c => [c]

/-- A column of a term is one of the given rows. An aggregate is over rows that belong to the base
row, and over a column of those. -/
def Term.RefersTo (names : NameRule) (s : Schema) (scope : Scope) (o : Origin) : Term → Prop
  | column c => scope.origin? names c.tableAlias = some o
  | aggregate a rows => rows.Correlated names s scope ∧
      ∀ c ∈ a.columns, (rows.scope scope).origin? names c.tableAlias = some (.grid rows.table)
  | _ => True

def Term.sources : Term → List RowSource
  | aggregate _ rows => [rows]
  | _ => []

namespace Predicate

/-- What is tested are columns of the given rows, and what they are tested against are columns of
the base row. Every subquery is over rows that belong to the base row and tests columns of those. -/
def Correlated (names : NameRule) (s : Schema) (scope : Scope) (o : Origin) : Predicate → Prop
  | always | never => True
  | compare l _ t => l.RefersTo names s scope o ∧ t.RefersTo names s scope .base
  | isNull t | isNotNull t | like t _ _ _ => t.RefersTo names s scope o
  | between t low high => t.RefersTo names s scope o ∧ low.RefersTo names s scope .base ∧
      high.RefersTo names s scope .base
  | isIn t ts | isNotIn t ts =>
    t.RefersTo names s scope o ∧ ∀ v ∈ ts, v.RefersTo names s scope .base
  | rowExists rows => rows.Correlated names s scope
  | rowExistsWhere rows filter => rows.Correlated names s scope ∧
      filter.Correlated names s (rows.scope scope) (.grid rows.table)
  | and p q | or p q => p.Correlated names s scope o ∧ q.Correlated names s scope o
  | not p | paren p => p.Correlated names s scope o

/-- The rows of the subqueries of a predicate. -/
def sources : Predicate → List RowSource
  | always | never => []
  | compare l _ t => l.sources ++ t.sources
  | isNull t | isNotNull t | like t _ _ _ => t.sources
  | between t low high => t.sources ++ (low.sources ++ high.sources)
  | isIn t ts | isNotIn t ts => t.sources ++ ts.flatMap Term.sources
  | rowExists rows => [rows]
  | rowExistsWhere rows filter => rows :: filter.sources
  | and p q | or p q => p.sources ++ q.sources
  | not p | paren p => p.sources

end Predicate

end Eligibility.Sql
