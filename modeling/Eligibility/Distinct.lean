/-!
# First occurrences

* `distinct`: a list without the later occurrences of its elements.
-/

namespace Eligibility

/-- The first occurrences, in order. -/
def distinct {α : Type} [DecidableEq α] : List α → List α
  | [] => []
  | x :: xs => x :: (distinct xs).filter (· ≠ x)

end Eligibility
