import Eligibility.Number.Binary64
import Eligibility.Text.Cut

/-!
# Reading decimal numbers

A decimal literal has a sign, digits, a point and an exponent, all but one digit optional. It is
read as a whole number times a power of ten and rounded once, to the nearest binary64 number.

* `digitsValue`: the number that a run of digits writes;
* `readInt?`, `int64?`, `int32?`: whole numbers, and those of a fixed width;
* `Binary64.ofDecimal`, **`Binary64.ofText?`**: the binary64 number nearest to a literal; the words
  `inf`, `infinity` and `nan` are read in any letter case.
-/

namespace Eligibility

namespace Decimal

/-- The number that a run of digits writes, most significant first. -/
def digitsValue (ds : List Char) : Nat := ds.foldl (fun n d => 10 * n + (d.toNat - '0'.toNat)) 0

/-- An optional sign, and whether it is a minus. -/
def readSign : List Char → Bool × List Char
  | '-' :: cs => (true, cs)
  | '+' :: cs => (false, cs)
  | cs => (false, cs)

/-- A non-empty run of ASCII digits and nothing else. -/
def readNat? (cs : List Char) : Option Nat :=
  if cs ≠ [] ∧ cs.all Char.isDigit then some (digitsValue cs) else none

/-- A whole number with an optional sign. -/
def readInt? (cs : List Char) : Option Int :=
  let (negative, ds) := readSign cs
  (readNat? ds).map fun n => if negative then -(n : Int) else n

/-- A whole number within the 64-bit integers. -/
def int64? (s : String) : Option Int64 :=
  (readInt? s.toList).bind fun n =>
    if -2 ^ 63 ≤ n ∧ n < 2 ^ 63 then some (.ofInt n) else none

/-- A whole number within the 32-bit integers. -/
def int32? (s : String) : Option Int32 :=
  (readInt? s.toList).bind fun n =>
    if -2 ^ 31 ≤ n ∧ n < 2 ^ 31 then some (.ofInt n) else none

/-- The exponent part of a literal; none is exponent zero. -/
def readExponent? : List Char → Option Int
  | [] => some 0
  | c :: cs => if c = 'e' ∨ c = 'E' then readInt? cs else none

/-- The fraction part of a literal, and what follows it. -/
def readFraction : List Char → List Char × List Char
  | '.' :: cs => cs.span Char.isDigit
  | cs => ([], cs)

/-- An unsigned literal, as a whole number and the power of ten that scales it. -/
def readScaled? (cs : List Char) : Option (Nat × Int) :=
  let (whole, cs) := cs.span Char.isDigit
  let (fraction, cs) := readFraction cs
  if whole = [] ∧ fraction = [] then none
  else (readExponent? cs).map fun e => (digitsValue (whole ++ fraction), e - fraction.length)

end Decimal

namespace Binary64

/-- The binary64 number nearest to `digits * 10 ^ exponent`. A power of ten out of reach is
infinite or zero without being computed. -/
def ofDecimal (negative : Bool) (digits : Nat) (exponent : Int) : Binary64 :=
  if digits = 0 then .zero negative
  else if 310 ≤ exponent then .infinite negative
  else if exponent + digits.log2 < -331 then .zero negative
  else .ofRatio negative (digits * 10 ^ exponent.toNat) (10 ^ (-exponent).toNat)

/-- The number that a literal writes. -/
def ofText? (s : String) : Option Binary64 :=
  let (negative, cs) := Decimal.readSign s.toList
  let word := Text.upper (.ofList cs)
  if word = "INF" ∨ word = "INFINITY" then some (.infinite negative)
  else if word = "NAN" then some .nan
  else (Decimal.readScaled? cs).map fun d => .ofDecimal negative d.1 d.2

end Binary64

end Eligibility
