import Eligibility.Number.Decimal

/-!
# Writing binary64 numbers

A finite number is written with the **fewest digits that read back as the same number**. Among the
writings with as few digits the one nearest to the number is taken; which of two equally near, a
format decides.

* `Tie`: the two ways to decide;
* `Binary64.candidates`: the decimals with a given count of digits next to the number, nearest
  first;
* `Binary64.decimal`: the chosen digits and power of ten;
* **`Binary64.text`**: positional notation without an exponent; whole numbers have no point, and of
  two equally near decimals the larger is taken.
-/

namespace Eligibility

namespace Decimal

/-- Drop trailing zeros of `digits`, raising the power of ten. -/
def strip (digits : Nat) (exponent : Int) : Nat × Int :=
  if digits ≠ 0 ∧ digits % 10 = 0 then strip (digits / 10) (exponent + 1) else (digits, exponent)
termination_by digits
decreasing_by omega

/-- `digits * 10 ^ exponent` in positional notation. -/
def layout (digits : Nat) (exponent : Int) : List Char :=
  let ds := Nat.toDigits 10 digits
  if 0 ≤ exponent then ds ++ List.replicate exponent.toNat '0'
  else
    let places := (-exponent).toNat
    if places < ds.length then
      ds.take (ds.length - places) ++ '.' :: ds.drop (ds.length - places)
    else '0' :: '.' :: List.replicate (places - ds.length) '0' ++ ds

end Decimal

/-- Which of two equally near decimals is taken. -/
inductive Tie where
  | larger
  /-- The one whose last digit is even. -/
  | even
  deriving DecidableEq

namespace Binary64

/-- Scaled by this power of ten, the smallest positive number is well above one. -/
def scalePlaces : Nat := 350

/-- The two neighbours of a count among the decimals with `n` digits, the nearer first. A count of
zero has none. -/
def candidates (tie : Tie) (count n : Nat) : List (Nat × Int) :=
  let scaled := count * 10 ^ scalePlaces
  let places := (Nat.toDigits 10 (scaled / 2 ^ unitBits)).length
  let step := 2 ^ unitBits * 10 ^ (places - n)
  let exponent : Int := (places : Int) - n - scalePlaces
  let below := scaled / step
  let rest := 2 * (scaled % step)
  if rest < step ∨ (rest = step ∧ tie = .even ∧ below % 2 = 0) then
    [(below, exponent), (below + 1, exponent)]
  else [(below + 1, exponent), (below, exponent)]

/-- The exact decimal value of a count. -/
def exactDecimal (count : Nat) : Nat × Int := (count * 5 ^ unitBits, -unitBits)

/-- The digits and the power of ten that write a count: the first candidate that reads back, by
growing digit counts. -/
def decimal (tie : Tie) (count : Nat) : Nat × Int :=
  let reads (d : Nat × Int) : Bool :=
    match ofDecimal false d.1 d.2 with
    | .finite _ n _ => n == count
    | _ => false
  let tries := (List.range 17).flatMap fun i => candidates tie count (i + 1)
  let d := (tries.find? reads).getD (exactDecimal count)
  Decimal.strip d.1 d.2

/-- The shortest text of a number, without an exponent. -/
def text : Binary64 → String
  | finite negative count _ =>
    let d := if count = 0 then (0, 0) else decimal .larger count
    .ofList ((if negative then ['-'] else []) ++ Decimal.layout d.1 d.2)
  | infinite negative => if negative then "-inf" else "inf"
  | nan => "NaN"

end Binary64

end Eligibility
