import Eligibility.Sql.Term

/-!
# SQL predicates

Predicates are trees in which every parenthesis is a node of its own, so that the text of a tree is
the concatenation of the texts of its parts.

* `Sql.Relation`, **`Sql.Predicate`**, with `Predicate.text`;
* `Predicate.all`, `Predicate.any`: chains of `AND` and of `OR`;
* `Sql.Case`, `Sql.scoreText`: scores.
-/

namespace Eligibility.Sql

/-- A comparison of two values. -/
inductive Relation where
  | eq | neq | gt | gte | lt | lte
  deriving DecidableEq, Repr

def Relation.text : Relation → String
  | eq => "="
  | neq => "<>"
  | gt => ">"
  | gte => ">="
  | lt => "<"
  | lte => "<="

/-- A predicate on a row. -/
inductive Predicate where
  | always
  | never
  | compare (l : Term) (r : Relation) (t : Term)
  | isNull (t : Term)
  | isNotNull (t : Term)
  | between (t low high : Term)
  | isIn (t : Term) (ts : List Term)
  | isNotIn (t : Term) (ts : List Term)
  /-- The value has `s` in it; nothing stands before it unless `before`, and nothing after it
  unless `after`. -/
  | like (t : Term) (before after : Bool) (s : String)
  | rowExists (rows : RowSource)
  | rowExistsWhere (rows : RowSource) (filter : Predicate)
  | and (p q : Predicate)
  | or (p q : Predicate)
  | not (p : Predicate)
  | paren (p : Predicate)
  deriving DecidableEq

/-- A pattern with an escape clause, which stands only where the pattern escapes something. -/
def likeText (before after : Bool) (s : String) : String :=
  let any (b : Bool) := if b then "%" else ""
  let escaped := likeEscape s
  let pattern := quote (any before ++ escaped ++ any after)
  if escaped = s then s!"LIKE {pattern}" else s!"LIKE {pattern} ESCAPE '{escapeChar}'"

namespace Predicate

def text : Predicate → String
  | always => "1 = 1"
  | never => "1 = 0"
  | compare l r t => l.text ++ " " ++ r.text ++ " " ++ t.text
  | isNull t => t.text ++ " IS NULL"
  | isNotNull t => t.text ++ " IS NOT NULL"
  | between t low high => t.text ++ " BETWEEN " ++ low.text ++ " AND " ++ high.text
  | isIn t ts => t.text ++ " IN (" ++ Term.listText ts ++ ")"
  | isNotIn t ts => t.text ++ " NOT IN (" ++ Term.listText ts ++ ")"
  | like t before after s => t.text ++ " " ++ likeText before after s
  | rowExists rows => "EXISTS (SELECT 1 " ++ rows.text ++ ")"
  | rowExistsWhere rows filter => "EXISTS (SELECT 1 " ++ rows.text ++ " AND " ++ filter.text ++ ")"
  | and p q => p.text ++ " AND " ++ q.text
  | or p q => p.text ++ " OR " ++ q.text
  | not p => "NOT " ++ p.text
  | paren p => "(" ++ p.text ++ ")"

/-- All of the predicates hold. -/
def all : List Predicate → Predicate
  | [] => always
  | p :: ps => ps.foldl and p

/-- One of the predicates holds. -/
def any : List Predicate → Predicate
  | [] => never
  | p :: ps => ps.foldl or p

/-- The predicate, negated or not. -/
def negatedIf (negated : Bool) (p : Predicate) : Predicate := if negated then not p else p

end Predicate

/-- A number where a predicate is true, and zero elsewhere. -/
structure Case where
  condition : Predicate
  value : Int64
  deriving DecidableEq

def Case.text (c : Case) : String :=
  "CASE WHEN " ++ c.condition.text ++ " THEN " ++ toString c.value.toInt ++ " ELSE 0 END"

/-- The sum of cases. -/
def scoreText (cs : List Case) : String :=
  if cs = [] then "0" else " + ".intercalate (cs.map Case.text)

end Eligibility.Sql
