import Eligibility.Number.Binary64

/-!
# Scaling by powers of ten

A number of few digits times a power of ten, computed **on binary64 numbers**: the digits, the power
and the product or quotient are each rounded. What comes out may be a neighbour of the number that
one rounding would give.

* `Binary64.powerCount`: a power of ten as a binary64 number;
* **`Binary64.scale?`**, `Binary64.ofDigits?`.
-/

namespace Eligibility.Binary64

/-- The exponent of the greatest power of ten that is finite. -/
def greatestPower : Nat := 308

/-- The count nearest to a power of ten. -/
def powerCount (k : Nat) : Nat := roundCount (10 ^ k) 1

/-- A count multiplied or divided by a power of ten; none if the result is not finite. A power too
small to be written divides in several steps, each of them rounded. -/
def scale? (negative : Bool) (count : Nat) (exponent : Int) : Option Binary64 :=
  if exponent < -greatestPower then
    if count = 0 then some (.zero negative)
    else scale? negative (roundCount count (powerCount greatestPower)) (exponent + greatestPower)
  else
    let x := if exponent < 0 then ofRatio negative count (powerCount (-exponent).toNat)
      else ofRatio negative (count * powerCount exponent.toNat) (2 ^ unitBits * 2 ^ unitBits)
    if x.isFinite then some x else none
termination_by (-exponent).toNat
decreasing_by simp only [greatestPower] at *; omega

/-- Digits times a power of ten, the digits rounded before they are scaled. -/
def ofDigits? (negative : Bool) (digits : Nat) (exponent : Int) : Option Binary64 :=
  scale? negative (roundCount digits 1) exponent

end Eligibility.Binary64
