import Eligibility.Number.Power

/-!
# Binary64 numbers

A finite binary64 number is a whole count of the smallest positive one, `2 ^ -1074`, written with
at most 53 significant bits. A quotient is **rounded** to the nearest such count, a tie going to
the even neighbour; a count of `2 ^ 2098` or more is infinite.

* `roundDiv`: the whole number nearest to a quotient;
* `excess`, `infiniteFrom`, `Fits`: the counts that binary64 can write;
* `Binary64`, **`Binary64.ofRatio`**: the binary64 number nearest to a quotient;
* `Binary64.truncate`: the whole part, held within the 64-bit integers.
-/

namespace Eligibility

/-- The whole number nearest to `num / den`; a tie goes to the even neighbour. -/
def roundDiv (num den : Nat) : Nat :=
  let q := num / den
  let r := num % den
  if 2 * r < den ∨ (2 * r = den ∧ q % 2 = 0) then q else q + 1

theorem roundDiv_le {num den b : Nat} (h : num < b * den) : roundDiv num den ≤ b := by
  have hq : num / den < b := (Nat.div_lt_iff_lt_mul (Nat.pos_of_ne_zero fun h0 => by
    subst h0; omega)).2 h
  simp only [roundDiv]; split <;> omega

theorem roundDiv_mul (b : Nat) {den : Nat} (h : 0 < den) : roundDiv (b * den) den = b := by
  have hq : b * den / den = b := Nat.mul_div_cancel b h
  have hr : b * den % den = 0 := Nat.mul_mod_left b den
  simp only [roundDiv, hq, hr]; rw [if_pos]; left; omega

/-- The binary digits of a count beyond the 53 significant ones. -/
def excess (n : Nat) : Nat := n.log2 - 52

/-- The counts from here on are infinite. -/
def infiniteFrom : Nat := 2 ^ 2098

theorem infiniteFrom_pos : 0 < infiniteFrom := by decide +kernel

/-- A count below the infinite ones whose digits beyond the 53 significant ones are zeros. -/
def Fits (n : Nat) : Prop := n < infiniteFrom ∧ 2 ^ excess n ∣ n

instance (n : Nat) : Decidable (Fits n) := by unfold Fits; infer_instance

theorem lt_two_pow_excess (n : Nat) : n < 2 ^ 53 * 2 ^ excess n := by
  rw [← Nat.pow_add]
  by_cases h : n = 0
  · subst h; exact Nat.two_pow_pos _
  · exact (Nat.log2_lt h).1 (by unfold excess; omega)

theorem dvd_excess {m k : Nat} (h : m ≤ 2 ^ 53) : 2 ^ excess (m * 2 ^ k) ∣ m * 2 ^ k := by
  by_cases h0 : m = 0
  · subst h0; simp
  rcases Nat.lt_or_ge m (2 ^ 53) with hm | hm
  · have : excess (m * 2 ^ k) ≤ k := by
      have hne : m * 2 ^ k ≠ 0 := Nat.mul_ne_zero h0 (Nat.pos_iff_ne_zero.1 (Nat.two_pow_pos k))
      have := (Nat.log2_lt hne (k := 53 + k)).2 (by
        rw [Nat.pow_add]; exact Nat.mul_lt_mul_of_pos_right hm (Nat.two_pow_pos k))
      unfold excess; omega
    exact Nat.dvd_trans (Nat.pow_dvd_pow 2 this) (Nat.dvd_mul_left _ _)
  · have hm' : m = 2 ^ 53 := Nat.le_antisymm h hm
    subst hm'
    rw [← Nat.pow_add]
    refine Nat.pow_dvd_pow 2 ?_
    rw [excess, Nat.log2_two_pow]; omega

/-- A binary64 number. -/
inductive Binary64 where
  /-- A sign and a count of the smallest positive number. -/
  | finite (negative : Bool) (count : Nat) (fits : Fits count)
  | infinite (negative : Bool)
  | nan
  deriving DecidableEq

namespace Binary64

/-- The exponent of the smallest positive number is `-unitBits`. -/
def unitBits : Nat := 1074

/-- The count nearest to the quotient among those with 53 significant bits. -/
def roundCount (num den : Nat) : Nat :=
  let scaled := num * 2 ^ unitBits
  let k := excess (scaled / den)
  roundDiv scaled (den * 2 ^ k) * 2 ^ k

theorem dvd_roundCount (num : Nat) {den : Nat} (h : 0 < den) :
    2 ^ excess (roundCount num den) ∣ roundCount num den := by
  refine dvd_excess (roundDiv_le ?_)
  have := lt_two_pow_excess (num * 2 ^ unitBits / den)
  have := (Nat.div_lt_iff_lt_mul h).1 this
  calc _ < _ := this
    _ = _ := by rw [Nat.mul_assoc, Nat.mul_comm (2 ^ _) den]

/-- The binary64 number with a given sign nearest to `num / den`; a division by zero is infinite. -/
def ofRatio (negative : Bool) (num den : Nat) : Binary64 :=
  if h : 0 < den ∧ roundCount num den < infiniteFrom then
    .finite negative (roundCount num den) ⟨h.2, dvd_roundCount num h.1⟩
  else .infinite negative

/-- Zero with a sign. -/
def zero (negative : Bool) : Binary64 := .finite negative 0 ⟨infiniteFrom_pos, Nat.dvd_zero _⟩

/-- Whether the number is zero, of either sign. -/
def isZero : Binary64 → Bool
  | finite _ n _ => n == 0
  | _ => false

def isFinite : Binary64 → Bool
  | finite .. => true
  | _ => false

/-- The whole part, toward zero; what lies outside the 64-bit integers goes to the nearest end of
their range. -/
def truncate : Binary64 → Int64
  | finite negative n _ =>
    let whole := n / 2 ^ unitBits
    if negative then .ofInt (-(min whole (2 ^ 63) : Nat)) else .ofInt (min whole (2 ^ 63 - 1) : Nat)
  | infinite negative => if negative then .minValue else .maxValue
  | nan => 0

end Binary64

end Eligibility
