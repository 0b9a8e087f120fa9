import Eligibility.Proofs.Sql.Score

/-!
# Reading queries

A query takes from a table the keys and the scores of the rows that satisfy a predicate, in the
order of the scores. Its keywords stand at fixed places, whatever its names are.

* `Query`, **`query?`**: queries, and reading them;
* `queryItems`, `shows_query`: the items of a query;
* **`query?_text`**: the text of a query reads as its parts.
-/

namespace Eligibility.Sql

open Item (word symbol)

/-- The rows of a table that satisfy a condition, in the order of their scores. -/
structure Query where
  key : String
  score : List (Summand (List Item))
  table : String
  rowAlias : String
  condition : Formula (List Item)

/-- A name, and what follows it. -/
def name? : List Item → Option (String × List Item)
  | .token (.word s) :: is => some (s, is)
  | _ => none

/-- What follows a comma. -/
def afterComma? : List Item → Option (List Item)
  | .token (.symbol ",") :: is => some is
  | _ => none

/-- Items that are a query; the order is that of the column that the score is written to. -/
def queryOf? (is : List Item) : Option Query := do
  let (key, is) ← (after? "SELECT" is).bind name?
  let (score, is) ← (afterComma? is).bind sum?
  let (total, is) ← (after? "AS" is).bind name?
  let (table, is) ← (after? "FROM" is).bind name?
  let (rowAlias, is) ← name? is
  let (condition, is) ← (after? "WHERE" is).bind (untilEnd? true)
  let condition ← formula? condition
  let (order, is) ← ((after? "ORDER" is).bind (after? "BY")).bind name?
  let is ← after? "DESC" is
  if order = total ∧ is.isEmpty then some ⟨key, score, table, rowAlias, condition⟩ else none

/-- The query that text reads as. -/
def query? (s : String) : Option Query := (items? s).bind queryOf?

/-! ## Queries are read back -/

section Text

variable {key table rowAlias : String} {cs : List Case} {p : Predicate}

def queryItems (key table rowAlias : String) (cs : List Case) (p : Predicate) : List Item :=
  word "SELECT" :: word key :: symbol "," :: (plusItems (cs.map Case.items) ++
    word "AS" :: word "total_score" :: word "FROM" :: word table :: word rowAlias ::
      word "WHERE" :: (p.items ++ [word "ORDER", word "BY", word "total_score", word "DESC"]))

theorem shows_query (hkey : isName key.toList = true) (htable : isName table.toList = true)
    (halias : isName rowAlias.toList = true) (hcs : ∀ c ∈ cs, c.condition.Clean IsComplete)
    (hp : p.Clean IsComplete) :
    Shows ("SELECT " ++ key ++ ", " ++ scoreText cs ++ " AS total_score FROM " ++ table ++ " " ++
      rowAlias ++ " WHERE " ++ p.text ++ " ORDER BY total_score DESC")
      (queryItems key table rowAlias cs p) := by
  have hfrom : Opens " AS total_score FROM " [word "AS", word "total_score", word "FROM"] :=
    opens_of_tokens (by decide +kernel)
  have horder : Shows " ORDER BY total_score DESC"
      [word "ORDER", word "BY", word "total_score", word "DESC"] :=
    shows_of_tokens (by decide +kernel)
  have hscore := ((opens_select.shows (shows_name hkey)).opens opens_comma (by decide)).shows
    (shows_score hcs)
  have hsource := ((hscore.opens hfrom (by decide)).shows (shows_name htable)).space
    (shows_name halias)
  have := ((hsource.opens opens_where (by decide)).shows (Predicate.shows hp)).append horder
    (by decide)
  exact this.cast rfl (by simp [queryItems])

/-- The text of a query reads as its parts. -/
theorem query?_text (hkey : isName key.toList = true) (htable : isName table.toList = true)
    (halias : isName rowAlias.toList = true)
    (hcs : ∀ c ∈ cs, c.condition.Layered ∧ c.condition.Clean IsLiteral) (hl : p.Layered)
    (hp : p.Clean IsLiteral) :
    query? ("SELECT " ++ key ++ ", " ++ scoreText cs ++ " AS total_score FROM " ++ table ++ " " ++
      rowAlias ++ " WHERE " ++ p.text ++ " ORDER BY total_score DESC") =
      some ⟨key, scoreSummands cs, table, rowAlias, .clauses p.clauses⟩ := by
  have hs := shows_query hkey htable halias
    (fun c hc => (hcs c hc).2.mono fun _ => IsLiteral.isComplete)
    (hp.mono fun _ => IsLiteral.isComplete)
  have hr := (Predicate.reads hl hp).clauses
  rw [query?, hs.items?, Option.bind_some, queryItems, queryOf?]
  change (sum? _).bind _ = _
  rw [sum?_score hcs (by intro js h; cases h), Option.bind_some]
  change (untilEnd? true _).bind _ = _
  rw [hr.untilEnd? rfl, Option.bind_some]
  change (formula? p.items).bind _ = _
  rw [hr.formula?]
  rfl

end Text

end Eligibility.Sql
