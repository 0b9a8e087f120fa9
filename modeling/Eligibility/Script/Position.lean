/-!
# Positions in a script

* `Position`: a line and a column, both counted from one; `Position.text` is `line:column`.
-/

namespace Eligibility

/-- A place in a script. Columns count characters. The default is nowhere. -/
structure Position where
  line : Nat := 0
  column : Nat := 0
  deriving DecidableEq, Repr, Inhabited

namespace Position

/-- The first character of a script. -/
def first : Position := ⟨1, 1⟩

/-- The place `n` characters further on the same line. -/
def right (p : Position) (n : Nat) : Position := ⟨p.line, p.column + n⟩

/-- The start of the next line. -/
def nextLine (p : Position) : Position := ⟨p.line + 1, 1⟩

def text (p : Position) : String := s!"{p.line}:{p.column}"

end Position

end Eligibility
