/-!
# Character ranges

* `inRanges`: membership of a character in a table of code-point ranges.
-/

namespace Eligibility.Text

/-- Whether the code point of `c` lies in one of the ranges, both ends included. -/
def inRanges (ranges : List (Nat × Nat)) (c : Char) : Bool :=
  ranges.any fun r => r.1 ≤ c.toNat && c.toNat ≤ r.2

end Eligibility.Text
