import Eligibility.Proofs.Number.Rounding
import Eligibility.Proofs.Token.Number
import Eligibility.Script.Parsed

/-!
# Whole numbers in number tokens

A whole number is read through a binary64 number, which keeps 53 significant bits of it.

* **`kept`**: what is left of a whole number;
* **`Token.integer?_toString`**: what the token of a whole number reads as;
* **`kept_eq_iff`**: which 64-bit integers are read as themselves.
-/

namespace Eligibility

/-! ## Whole numbers as 64-bit integers -/

/-- A number with a sign, held within the 64-bit integers. -/
def held (negative : Bool) (n : Nat) : Int64 :=
  if negative then .ofInt (-(min n (2 ^ 63) : Nat)) else .ofInt (min n (2 ^ 63 - 1) : Nat)

/-- What is left of a whole number: 53 significant bits, held within the 64-bit integers. -/
def kept (i : Int) : Int64 := held (decide (i < 0)) (significant i.natAbs)

theorem significant_limit {n : Nat} (h : n = 2 ^ 63 - 1 ∨ n = 2 ^ 63) : significant n = 2 ^ 63 := by
  obtain rfl | rfl := h <;> decide +kernel

theorem toInt_held (negative : Bool) (n : Nat) :
    (held negative n).toInt =
      if negative then -((min n (2 ^ 63) : Nat) : Int) else ((min n (2 ^ 63 - 1) : Nat) : Int) := by
  cases negative
  · exact Int64.toInt_ofInt_of_le (by omega) (by omega)
  · exact Int64.toInt_ofInt_of_le (by omega) (by omega)

theorem held_of_le (negative : Bool) {n : Nat} (h : 2 ^ 63 ≤ n) :
    held negative n = if negative then .minValue else .maxValue := by
  cases negative
  · have hmin : min n (2 ^ 63 - 1) = 2 ^ 63 - 1 := by omega
    rw [held, hmin]
    rfl
  · have hmin : min n (2 ^ 63) = 2 ^ 63 := by omega
    rw [held, hmin]
    rfl

theorem truncate_ofRatio_one (negative : Bool) (n : Nat) :
    (Binary64.ofRatio negative n 1).truncate = held negative (significant n) := by
  unfold Binary64.ofRatio
  split
  · change held negative (Binary64.roundCount n 1 / 2 ^ Binary64.unitBits) = _
    rw [roundCount_one, Nat.mul_div_cancel _ (Nat.two_pow_pos _)]
  · rename_i h
    have hcount : infiniteFrom ≤ significant n * 2 ^ Binary64.unitBits := by
      rw [← roundCount_one]
      exact Nat.le_of_not_lt fun hlt => h ⟨Nat.one_pos, hlt⟩
    rw [infiniteFrom, show 2098 = 1024 + Binary64.unitBits from rfl, Nat.pow_add] at hcount
    have hlarge := Nat.le_of_mul_le_mul_right hcount (Nat.two_pow_pos _)
    have hrange : 2 ^ 63 ≤ significant n :=
      Nat.le_trans (Nat.pow_le_pow_right Nat.two_pos (by decide)) hlarge
    rw [held_of_le negative hrange]
    rfl

/-! ## Tokens -/

section Token

open Decimal

theorem ofText?_toString (i : Int) : Binary64.ofText? (toString i) =
    some (.ofDecimal (decide (i < 0)) i.natAbs 0) := by
  rw [← String.ofList_toList (s := toString i), toList_toString,
    Binary64.ofText?_magnitude _ (head?_repr _),
    readScaled?_digits (toList_repr_ne_nil _) (all_isDigit_repr _), Nat.toList_repr,
    digitsValue_toDigits]
  rfl

theorem truncate_ofDecimal_zero (negative : Bool) (n : Nat) :
    (Binary64.ofDecimal negative n 0).truncate = held negative (significant n) := by
  rw [Binary64.ofDecimal]
  split
  · rename_i h
    subst h
    have hzero : significant 0 = 0 := significant_eq_iff.2 (Nat.dvd_zero _)
    change held negative (0 / 2 ^ Binary64.unitBits) = _
    rw [Nat.zero_div, hzero]
  · rw [if_neg (by decide), if_neg (by omega)]
    have hratio := truncate_ofRatio_one negative n
    simpa using hratio

/-- **What the token of a whole number reads as.** -/
theorem Token.integer?_toString {t : Token} {i : Int} (hk : t.kind = .number)
    (ht : t.text = toString i) : t.integer? = some (kept i) := by
  rw [Token.integer?, Token.number?, if_pos hk, ht, ofText?_toString, Option.map_some,
    truncate_ofDecimal_zero]
  rfl

end Token

/-! ## Exact numbers -/

section Exact

variable (n : Int64)

/-- **Which 64-bit integers are read as themselves**: those with 53 significant bits, and the
greatest one, which is rounded up and then held. -/
theorem kept_eq_iff :
    kept n.toInt = n ↔ 2 ^ excess n.toInt.natAbs ∣ n.toInt.natAbs ∨ n = .maxValue := by
  have hlow := n.le_toInt
  have hhigh := n.toInt_lt
  have hmax : n = .maxValue ↔ n.toInt = 2 ^ 63 - 1 := by
    rw [← Int64.toInt_inj, Int64.toInt_maxValue]
  have hlimit := significant_limit (n := n.toInt.natAbs)
  rw [← significant_eq_iff, ← Int64.toInt_inj, kept, toInt_held, hmax]
  by_cases h : n.toInt < 0
  · rw [decide_eq_true h, if_pos rfl]
    omega
  · rw [decide_eq_false h, if_neg Bool.false_ne_true]
    omega

end Exact

end Eligibility
