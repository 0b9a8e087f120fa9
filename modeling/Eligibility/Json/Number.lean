import Eligibility.Number.Scaling
import Eligibility.Number.Shortest

/-!
# Numbers in JSON text

A finite binary64 number is written with the fewest digits that read back after one rounding, of two
equally near the even ones. **Reading scales the digits on binary64 numbers**, in two roundings, so
a number of many digits may come back as a neighbour of the one that was written.

* `JsonNumber.shown`: the digits and the power of ten that the text shows;
* `JsonNumber.text`;
* **`JsonNumber.reread?`**: the number that is read from the text.
-/

namespace Eligibility.JsonNumber

/-- Numbers from `10 ^ wholePlaces` on are written with an exponent. -/
def wholePlaces : Nat := 16

/-- The digits and the power of ten of a count, as its text shows them. A whole number without an
exponent is shown with one decimal place. -/
def shown (count : Nat) : Nat × Int :=
  let d := if count = 0 then (0, 0) else Binary64.decimal .even count
  if 0 ≤ d.2 ∧ d.1 * 10 ^ d.2.toNat < 10 ^ wholePlaces then (d.1 * 10 ^ (d.2.toNat + 1), -1) else d

/-- `0.digits * 10 ^ point` with one digit before the point and an exponent. -/
def scientific (digits : List Char) (point : Int) : List Char :=
  digits.take 1 ++ (if 1 < digits.length then '.' :: digits.drop 1 else []) ++
    'e' :: (toString (point - 1)).toList

/-- The text of a number: with an exponent from `10 ^ wholePlaces` on and below `10 ^ -5`. One that
is not finite has none and is written as null. -/
def text : Binary64 → String
  | .finite negative count _ =>
    let d := shown count
    let digits := Nat.toDigits 10 d.1
    let point := digits.length + d.2
    .ofList ((if negative then ['-'] else []) ++
      if -5 < point ∧ point ≤ wholePlaces then Decimal.layout d.1 d.2 else scientific digits point)
  | _ => "null"

/-- The number that is read from the text of a number. -/
def reread? : Binary64 → Option Binary64
  | .finite negative count _ => Binary64.ofDigits? negative (shown count).1 (shown count).2
  | _ => none

end Eligibility.JsonNumber
