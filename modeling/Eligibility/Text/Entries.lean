import Eligibility.Text.Blank
import Eligibility.Text.Cut

/-!
# Stored lists

A stored list is a text with the separators `;`, `,` and line feed, in optional square brackets.
Entries lose the blanks around them and their double quotes; empty ones are dropped.

* `unbracket`; **`entries`**.
-/

namespace Eligibility.Text

/-- Drop an opening bracket at the start and a closing one at the end. -/
def unbracket (cs : List Char) : List Char :=
  let cs := if cs.head? = some '[' then cs.tail else cs
  if cs.getLast? = some ']' then cs.dropLast else cs

/-- The separators of a stored list. -/
def isSeparator (c : Char) : Bool := c ∈ [';', ',', '\n']

/-- The entries of a stored list. -/
def entries (s : String) : List String :=
  (pieces isSeparator (unbracket s.toList)).filterMap fun p =>
    let entry := (trimChars p).filter (· ≠ '"')
    if entry = [] then none else some (.ofList entry)

end Eligibility.Text
