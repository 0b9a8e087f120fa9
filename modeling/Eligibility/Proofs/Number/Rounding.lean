import Eligibility.Number.Decimal
import Mathlib.Tactic.Ring

/-!
# Rounding to binary64

* `roundDiv_mul_right`, `roundCount_mul_right`: a quotient rounds the same in all its forms;
* `significant`: a whole number with 53 significant bits left; `roundCount_one`, `roundCount_unit`;
* `le_significant`, `significant_le`: rounding does not step over a number that fits;
* **`ofDecimal_eq_ofRatio`**: a decimal is rounded once, also where it is out of reach.
-/

namespace Eligibility

/-! ## Quotients -/

theorem roundDiv_mul_right (num den : Nat) {c : Nat} (h : 0 < c) :
    roundDiv (num * c) (den * c) = roundDiv num den := by
  have hlt : 2 * (num % den * c) < den * c ↔ 2 * (num % den) < den := by
    rw [← Nat.mul_assoc, Nat.mul_lt_mul_right h]
  have heq : 2 * (num % den * c) = den * c ↔ 2 * (num % den) = den := by
    rw [← Nat.mul_assoc, Nat.mul_left_inj (Nat.ne_of_gt h)]
  simp only [roundDiv, Nat.mul_div_mul_right _ _ h, Nat.mul_mod_mul_right, hlt, heq]

theorem div_le_roundDiv (num den : Nat) : num / den ≤ roundDiv num den := by
  simp only [roundDiv]
  split <;> omega

/-! ## Whole numbers -/

/-- The number nearest to `n` among those with 53 significant bits. -/
def significant (n : Nat) : Nat := roundDiv n (2 ^ excess n) * 2 ^ excess n

theorem significant_eq_iff {n : Nat} : significant n = n ↔ 2 ^ excess n ∣ n := by
  constructor
  · intro h
    exact ⟨_, h.symm.trans (Nat.mul_comm _ _)⟩
  · rintro ⟨b, hb⟩
    rw [Nat.mul_comm] at hb
    rw [significant]
    generalize 2 ^ excess n = d at hb
    subst hb
    obtain rfl | hd := Nat.eq_zero_or_pos d
    · rw [Nat.mul_zero, Nat.mul_zero]
    · rw [roundDiv_mul b hd]

theorem log2_mul_two_pow {n : Nat} (h : n ≠ 0) (u : Nat) : (n * 2 ^ u).log2 = n.log2 + u := by
  have hpos := Nat.two_pow_pos u
  refine (Nat.log2_eq_iff (Nat.mul_ne_zero h (Nat.ne_of_gt hpos))).2 ⟨?_, ?_⟩
  · rw [Nat.pow_add]
    exact Nat.mul_le_mul_right _ (Nat.log2_self_le h)
  · rw [show n.log2 + u + 1 = n.log2 + 1 + u by omega, Nat.pow_add]
    exact Nat.mul_lt_mul_of_pos_right Nat.lt_log2_self hpos

theorem significant_mul_two_pow (n : Nat) {u : Nat} (hu : 52 ≤ u) :
    significant (n * 2 ^ u) = significant n * 2 ^ u := by
  obtain rfl | hn := Nat.eq_zero_or_pos n
  · have hzero : significant 0 = 0 := significant_eq_iff.2 (Nat.dvd_zero _)
    rw [Nat.zero_mul, hzero, Nat.zero_mul]
  have hlog := log2_mul_two_pow (Nat.ne_of_gt hn) u
  by_cases hbits : 52 ≤ n.log2
  · have hexcess : excess (n * 2 ^ u) = excess n + u := by
      rw [excess, excess, hlog]
      omega
    rw [significant, hexcess, Nat.pow_add, roundDiv_mul_right _ _ (Nat.two_pow_pos u), significant,
      Nat.mul_assoc]
  · -- all bits of `n` are significant, and so are those of its multiple
    have hexcess : excess n = 0 := by
      rw [excess]
      omega
    have hexact : significant n = n := by
      rw [significant_eq_iff, hexcess]
      exact Nat.one_dvd n
    rw [hexact, significant_eq_iff, excess, hlog]
    exact Nat.dvd_mul_left_of_dvd (Nat.pow_dvd_pow 2 (by omega)) n

theorem significant_of_lt {n : Nat} (h : n < 2 ^ 53) : significant n = n := by
  have hlog : n.log2 < 53 := by
    by_cases hn : n = 0
    · rw [hn]
      decide
    · exact (Nat.log2_lt hn).2 h
  have hexcess : excess n = 0 := by
    rw [excess]
    omega
  rw [significant_eq_iff, hexcess]
  exact Nat.one_dvd n

/-- Rounding does not go below a number of the same grid. -/
theorem le_significant {m n : Nat} (hd : 2 ^ excess n ∣ m) (h : m ≤ n) : m ≤ significant n := by
  obtain ⟨b, rfl⟩ := hd
  have hpos := Nat.two_pow_pos (excess n)
  have hb : b ≤ n / 2 ^ excess n := (Nat.le_div_iff_mul_le hpos).2 (by rwa [Nat.mul_comm])
  rw [Nat.mul_comm]
  exact Nat.mul_le_mul_right _ (Nat.le_trans hb (div_le_roundDiv _ _))

/-- Rounding does not go above a number of the same grid. -/
theorem significant_le {m n : Nat} (hd : 2 ^ excess n ∣ m) (h : n ≤ m) : significant n ≤ m := by
  rcases Nat.lt_or_eq_of_le h with h | rfl
  · obtain ⟨b, rfl⟩ := hd
    rw [Nat.mul_comm] at h ⊢
    exact Nat.mul_le_mul_right _ (roundDiv_le h)
  · exact Nat.le_of_eq (significant_eq_iff.2 hd)

theorem two_pow_le_of_excess {n : Nat} (h : excess n ≠ 0) : 2 ^ (52 + excess n) ≤ n := by
  have hn : n ≠ 0 := by
    rintro rfl
    exact h rfl
  have hlog : 52 + excess n = n.log2 := by
    rw [excess] at h ⊢
    omega
  rw [hlog]
  exact Nat.log2_self_le hn

theorem two_pow_le_significant {k n : Nat} (h : 2 ^ k ≤ n) : 2 ^ k ≤ significant n := by
  by_cases hk : excess n ≤ k
  · exact le_significant (Nat.pow_dvd_pow 2 hk) h
  · have hn := two_pow_le_of_excess (n := n) (by omega)
    have hgrid : 2 ^ (52 + excess n) ≤ significant n :=
      le_significant (Nat.pow_dvd_pow 2 (by omega)) hn
    exact Nat.le_trans (Nat.pow_le_pow_right Nat.two_pos (by omega)) hgrid

theorem significant_le_two_pow {k n : Nat} (h : n ≤ 2 ^ k) : significant n ≤ 2 ^ k := by
  by_cases hk : excess n ≤ k
  · exact significant_le (Nat.pow_dvd_pow 2 hk) h
  · have hn := two_pow_le_of_excess (n := n) (by omega)
    have hlt : 2 ^ k < 2 ^ (52 + excess n) := Nat.pow_lt_pow_right (by decide) (by omega)
    omega

theorem roundCount_one (n : Nat) :
    Binary64.roundCount n 1 = significant n * 2 ^ Binary64.unitBits := by
  rw [← significant_mul_two_pow n (u := Binary64.unitBits) (by decide)]
  rw [Binary64.roundCount, Nat.div_one, Nat.one_mul]
  rfl

namespace Binary64

/-! ## Counts -/

theorem roundCount_unit (n : Nat) : roundCount n (2 ^ unitBits) = significant n := by
  have hpos := Nat.two_pow_pos unitBits
  rw [roundCount, Nat.mul_div_cancel _ hpos, Nat.mul_comm (2 ^ unitBits) (2 ^ _),
    roundDiv_mul_right _ _ hpos, significant]

theorem roundCount_mul_right (num den : Nat) {c : Nat} (h : 0 < c) :
    roundCount (num * c) (den * c) = roundCount num den := by
  have hscaled : num * c * 2 ^ unitBits = num * 2 ^ unitBits * c := Nat.mul_right_comm _ _ _
  have hden (k : Nat) : den * c * 2 ^ k = den * 2 ^ k * c := Nat.mul_right_comm _ _ _
  simp only [roundCount, hscaled, hden, Nat.mul_div_mul_right _ _ h, roundDiv_mul_right _ _ h]

theorem roundCount_eq_zero {num den : Nat} (h : 2 * (num * 2 ^ unitBits) < den) :
    roundCount num den = 0 := by
  have hlt : num * 2 ^ unitBits < den := by omega
  have hdiv : num * 2 ^ unitBits / den = 0 := Nat.div_eq_of_lt hlt
  have hround : roundDiv (num * 2 ^ unitBits) den = 0 := by
    rw [roundDiv, hdiv, Nat.mod_eq_of_lt hlt, if_pos (.inl h)]
  have hexcess : excess 0 = 0 := rfl
  simp only [roundCount, hdiv, hexcess, Nat.pow_zero, Nat.mul_one, hround]

/-! ## Numbers -/

theorem ofRatio_mul_right (negative : Bool) (num den : Nat) {c : Nat} (h : 0 < c) :
    ofRatio negative (num * c) (den * c) = ofRatio negative num den := by
  have hden : 0 < den * c ↔ 0 < den := Nat.mul_pos_iff_of_pos_right h
  simp only [ofRatio, roundCount_mul_right _ _ h, hden]

theorem ofRatio_of_roundCount (negative : Bool) {num den count : Nat} (hden : 0 < den)
    (h : roundCount num den = count) (hf : Fits count) :
    ofRatio negative num den = .finite negative count hf := by
  subst h
  exact dif_pos ⟨hden, hf.1⟩

theorem ofRatio_of_infiniteFrom (negative : Bool) {num den : Nat}
    (h : infiniteFrom ≤ roundCount num den) : ofRatio negative num den = .infinite negative :=
  dif_neg fun hc => absurd h (Nat.not_le.2 hc.2)

theorem exists_two_pow_eq_infiniteFrom : ∃ k, infiniteFrom = 2 ^ k := ⟨_, rfl⟩

/-- A whole number out of reach is rounded to one out of reach. -/
theorem infiniteFrom_le_roundCount {n : Nat} (h : infiniteFrom ≤ n * 2 ^ unitBits) :
    infiniteFrom ≤ roundCount n 1 := by
  obtain ⟨k, hk⟩ := exists_two_pow_eq_infiniteFrom
  rw [roundCount_one, ← significant_mul_two_pow n (u := unitBits) (by decide)]
  rw [hk] at h ⊢
  exact two_pow_le_significant h

theorem infiniteFrom_le_ten_pow {k : Nat} (h : 310 ≤ k) : infiniteFrom ≤ 10 ^ k * 2 ^ unitBits := by
  induction h with
  | refl => decide +kernel
  | step _ ih =>
    exact Nat.le_trans ih
      (Nat.mul_le_mul_right _ (Nat.pow_le_pow_right (by decide) (Nat.le_succ _)))

theorem four_units_le_ten_pow {k : Nat} (h : 332 ≤ k) : 4 * 2 ^ unitBits ≤ 10 ^ k := by
  induction h with
  | refl => decide +kernel
  | step _ ih => exact Nat.le_trans ih (Nat.pow_le_pow_right (by decide) (Nat.le_succ _))

theorem ofDecimal_eq_ofRatio (negative : Bool) (digits : Nat) (exponent : Int) :
    ofDecimal negative digits exponent =
      ofRatio negative (digits * 10 ^ exponent.toNat) (10 ^ (-exponent).toNat) := by
  have hden : 0 < 10 ^ (-exponent).toNat := Nat.pow_pos (by decide)
  rw [ofDecimal]
  split
  · rename_i h
    rw [h, Nat.zero_mul, ofRatio_of_roundCount negative hden (roundCount_eq_zero (by simp))
      ⟨infiniteFrom_pos, Nat.dvd_zero _⟩]
    rfl
  rename_i hdigits
  split
  · rename_i h
    -- the number is at least `10 ^ 310`
    have hone : 10 ^ (-exponent).toNat = 1 := by rw [show (-exponent).toNat = 0 by omega]
    refine (ofRatio_of_infiniteFrom negative ?_).symm
    rw [hone]
    refine infiniteFrom_le_roundCount (Nat.le_trans (infiniteFrom_le_ten_pow ?_)
      (Nat.mul_le_mul_right _ (Nat.le_mul_of_pos_left _ (Nat.pos_of_ne_zero hdigits))))
    omega
  split
  · rename_i h
    -- the number is less than half of the smallest positive one
    have hexponent : exponent.toNat = 0 := by omega
    obtain ⟨k, hplaces, hk⟩ : ∃ k, (-exponent).toNat = digits.log2 + k ∧ 332 ≤ k :=
      ⟨(-exponent).toNat - digits.log2, by omega, by omega⟩
    have hsmall : 2 * (digits * 2 ^ unitBits) < 10 ^ (-exponent).toNat :=
      calc 2 * (digits * 2 ^ unitBits)
        _ < 2 * (2 ^ (digits.log2 + 1) * 2 ^ unitBits) :=
            Nat.mul_lt_mul_of_pos_left
              (Nat.mul_lt_mul_of_pos_right Nat.lt_log2_self (Nat.two_pow_pos _)) Nat.two_pos
        _ = 2 ^ digits.log2 * (4 * 2 ^ unitBits) := by rw [Nat.pow_succ]; ring
        _ ≤ 10 ^ digits.log2 * 10 ^ k :=
            Nat.mul_le_mul (Nat.pow_le_pow_left (by decide) _) (four_units_le_ten_pow hk)
        _ = 10 ^ (-exponent).toNat := by rw [hplaces, Nat.pow_add]
    rw [hexponent, Nat.pow_zero, Nat.mul_one, ofRatio_of_roundCount negative hden
      (roundCount_eq_zero hsmall) ⟨infiniteFrom_pos, Nat.dvd_zero _⟩]
    rfl
  · rfl

end Binary64

end Eligibility
