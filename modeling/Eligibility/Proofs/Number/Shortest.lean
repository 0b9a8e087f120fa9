import Eligibility.Number.Shortest
import Eligibility.Proofs.Number.Rounding

/-!
# The shortest decimal of a number

* `ofDecimal_mul_ten_pow`, `ofDecimal_strip`: zeros move between the digits and the power of ten;
* **`ofDecimal_decimal`**: the decimal that is chosen for a count reads back as it;
* **`unit_dvd_iff`**: a number is whole exactly if its decimal has no places behind the point.
-/

namespace Eligibility

open Decimal

namespace Binary64

variable {count : Nat}

/-! ## Zeros at the end -/

theorem ofDecimal_mul_ten (negative : Bool) (digits : Nat) (exponent : Int) :
    ofDecimal negative (digits * 10) exponent = ofDecimal negative digits (exponent + 1) := by
  rw [ofDecimal_eq_ofRatio, ofDecimal_eq_ofRatio]
  by_cases h : 0 ≤ exponent
  · have hup : (exponent + 1).toNat = exponent.toNat + 1 := by omega
    have hdown : (-(exponent + 1)).toNat = (-exponent).toNat := by omega
    rw [hup, hdown, Nat.pow_succ', Nat.mul_assoc]
  · have hup : exponent.toNat = (exponent + 1).toNat := by omega
    have hdown : (-exponent).toNat = (-(exponent + 1)).toNat + 1 := by omega
    rw [hup, hdown, Nat.pow_succ, Nat.mul_right_comm, ofRatio_mul_right _ _ _ (by decide)]

theorem ofDecimal_mul_ten_pow (negative : Bool) (digits k : Nat) (exponent : Int) :
    ofDecimal negative (digits * 10 ^ k) exponent = ofDecimal negative digits (exponent + k) := by
  induction k generalizing exponent with
  | zero => rw [Nat.pow_zero, Nat.mul_one, Int.natCast_zero, Int.add_zero]
  | succ k ih =>
    rw [Nat.pow_succ, ← Nat.mul_assoc, ofDecimal_mul_ten, ih]
    congr 1
    omega

theorem ofDecimal_strip (negative : Bool) (digits : Nat) (exponent : Int) :
    ofDecimal negative (strip digits exponent).1 (strip digits exponent).2 =
      ofDecimal negative digits exponent := by
  fun_induction strip digits exponent with
  | case1 digits exponent h ih =>
    rw [ih, ← ofDecimal_mul_ten, Nat.div_mul_cancel (Nat.dvd_of_mod_eq_zero h.2)]
  | case2 => rfl

theorem le_strip (digits : Nat) (exponent : Int) : exponent ≤ (strip digits exponent).2 := by
  fun_induction strip digits exponent with
  | case1 digits exponent h ih => omega
  | case2 => exact Int.le_refl _

theorem strip_mul_ten_pow {digits : Nat} (h : digits ≠ 0) (k : Nat) (exponent : Int) :
    strip (digits * 10 ^ k) exponent = strip digits (exponent + k) := by
  induction k generalizing exponent with
  | zero => rw [Nat.pow_zero, Nat.mul_one, Int.natCast_zero, Int.add_zero]
  | succ k ih =>
    have hne : digits * 10 ^ k ≠ 0 := Nat.mul_ne_zero h (Nat.ne_of_gt (Nat.pow_pos (by decide)))
    rw [Nat.pow_succ, ← Nat.mul_assoc, strip,
      if_pos ⟨Nat.mul_ne_zero hne (by decide), Nat.mul_mod_left ..⟩,
      Nat.mul_div_cancel _ (by decide), ih]
    congr 1
    omega

/-! ## Reading back -/

theorem ten_pow_eq (k : Nat) : 10 ^ k = 2 ^ k * 5 ^ k := Nat.mul_pow 2 5 k

/-- The exact decimal of a count reads back as it. -/
theorem ofDecimal_exactDecimal (negative : Bool) (h : Fits count) :
    ofDecimal negative (exactDecimal count).1 (exactDecimal count).2 =
      .finite negative count h := by
  have hup : (-(unitBits : Int)).toNat = 0 := by decide
  have hdown : (- -(unitBits : Int)).toNat = unitBits := by decide
  rw [exactDecimal, ofDecimal_eq_ofRatio, hup, hdown, Nat.pow_zero, Nat.mul_one, ten_pow_eq,
    ofRatio_mul_right _ _ _ (Nat.pow_pos (by decide))]
  refine ofRatio_of_roundCount negative (Nat.two_pow_pos _) ?_ h
  rw [roundCount_unit, significant_eq_iff]
  exact h.2

theorem ofDecimal_of_finite {sign : Bool} {digits : Nat} {exponent : Int} {h : Fits count}
    (hread : ofDecimal false digits exponent = .finite sign count h) (negative : Bool) :
    ofDecimal negative digits exponent = .finite negative count h := by
  rw [ofDecimal_eq_ofRatio] at hread ⊢
  unfold ofRatio at hread
  split at hread
  · rename_i hden
    cases hread
    exact ofRatio_of_roundCount negative hden.1 rfl _
  · cases hread

/-- The decimal reads back as the count. -/
def reads (count : Nat) (d : Nat × Int) : Bool :=
  match ofDecimal false d.1 d.2 with
  | .finite _ n _ => n == count
  | _ => false

theorem ofDecimal_of_reads {d : Nat × Int} (hread : reads count d = true) (h : Fits count)
    (negative : Bool) : ofDecimal negative d.1 d.2 = .finite negative count h := by
  unfold reads at hread
  split at hread
  · rename_i hfinite
    obtain rfl := eq_of_beq hread
    exact ofDecimal_of_finite hfinite negative
  · cases hread

/-- The first candidate that reads back, by growing digit counts. -/
def found? (tie : Tie) (count : Nat) : Option (Nat × Int) :=
  (List.range 17).findSome? fun i => (candidates tie count (i + 1)).find? (reads count)

theorem decimal_eq (tie : Tie) (count : Nat) :
    decimal tie count =
      strip ((found? tie count).getD (exactDecimal count)).1
        ((found? tie count).getD (exactDecimal count)).2 := by
  rw [found?, ← List.find?_flatMap]
  rfl

/-- **The decimal that is chosen for a count reads back as it.** -/
theorem ofDecimal_decimal (tie : Tie) (negative : Bool) (h : Fits count) :
    ofDecimal negative (decimal tie count).1 (decimal tie count).2 = .finite negative count h := by
  rw [decimal_eq, ofDecimal_strip]
  cases hfound : found? tie count with
  | none => exact ofDecimal_exactDecimal negative h
  | some d =>
    obtain ⟨i, -, hi⟩ := List.exists_of_findSome?_eq_some hfound
    exact ofDecimal_of_reads (List.find?_some hi) h negative

/-! ## Whole numbers -/

theorem toDigits_mul_ten_pow {n : Nat} (h : 0 < n) (k : Nat) :
    Nat.toDigits 10 (n * 10 ^ k) = Nat.toDigits 10 n ++ List.replicate k '0' := by
  induction k with
  | zero => rw [Nat.pow_zero, Nat.mul_one, List.replicate_zero, List.append_nil]
  | succ k ih =>
    have hpos : 0 < n * 10 ^ k := Nat.mul_pos h (Nat.pow_pos (by decide))
    have hdigit := Nat.toDigits_append_toDigits (b := 10) (d := 0) (by decide) hpos (by decide)
    have hlast : n * 10 ^ (k + 1) = 10 * (n * 10 ^ k) + 0 := by rw [Nat.pow_succ]; ring
    rw [hlast, ← hdigit, ih, List.replicate_succ', List.append_assoc, Nat.toDigits_zero]

variable {w : Nat}

theorem significant_of_fits (h : Fits (w * 2 ^ unitBits)) : significant w = w := by
  have := significant_eq_iff.2 h.2
  rw [significant_mul_two_pow w (by decide)] at this
  exact Nat.eq_of_mul_eq_mul_right (Nat.two_pow_pos _) this

theorem length_toDigits_whole (hw : 0 < w) :
    (Nat.toDigits 10 (w * 2 ^ unitBits * 10 ^ scalePlaces / 2 ^ unitBits)).length =
      (Nat.toDigits 10 w).length + scalePlaces := by
  rw [Nat.mul_right_comm, Nat.mul_div_cancel _ (Nat.two_pow_pos _), toDigits_mul_ten_pow hw,
    List.length_append, List.length_replicate]

/-- The candidates of a whole number end where it has as many digits as they have. -/
theorem exponent_candidates (hw : 0 < w) (tie : Tie) {n : Nat} {d : Nat × Int}
    (h : d ∈ candidates tie (w * 2 ^ unitBits) n) : d.2 = (Nat.toDigits 10 w).length - n := by
  simp only [candidates, length_toDigits_whole hw] at h
  split at h <;> simp only [List.mem_cons, List.not_mem_nil, or_false] at h <;>
    rcases h with rfl | rfl <;> omega

/-- With as many digits as it has, a whole number is its own candidate. -/
theorem mem_candidates (hw : 0 < w) (tie : Tie) :
    (w, 0) ∈ candidates tie (w * 2 ^ unitBits) (Nat.toDigits 10 w).length := by
  have hstep : 0 < 2 ^ unitBits * 10 ^ scalePlaces :=
    Nat.mul_pos (Nat.two_pow_pos _) (Nat.pow_pos (by decide))
  have hexponent (p q : Nat) : ((p + q : Nat) : Int) - p - q = 0 := by omega
  simp only [candidates, length_toDigits_whole hw, Nat.add_sub_cancel_left, hexponent]
  rw [Nat.mul_assoc, Nat.mul_div_cancel _ hstep, Nat.mul_mod_left, Nat.mul_zero,
    if_pos (.inl hstep)]
  exact List.mem_cons_self

theorem reads_whole (h : Fits (w * 2 ^ unitBits)) : reads (w * 2 ^ unitBits) (w, 0) = true := by
  have hcount : roundCount w 1 = w * 2 ^ unitBits := by
    rw [roundCount_one, significant_of_fits h]
  have hread : ofDecimal false w 0 = .finite false (w * 2 ^ unitBits) h := by
    rw [ofDecimal_eq_ofRatio]
    change ofRatio false (w * 1) 1 = _
    rw [Nat.mul_one, ofRatio_of_roundCount false Nat.one_pos hcount h]
  simp only [reads, hread, beq_self_eq_true]

/-- A whole number needs no places behind the point. -/
theorem decimal_whole (hw : 0 < w) (tie : Tie) (h : Fits (w * 2 ^ unitBits)) :
    0 ≤ (decimal tie (w * 2 ^ unitBits)).2 := by
  rw [decimal_eq]
  cases hfound : found? tie (w * 2 ^ unitBits) with
  | none =>
    have hexact : exactDecimal (w * 2 ^ unitBits) = (w * 10 ^ unitBits, -(unitBits : Int)) := by
      rw [exactDecimal, ten_pow_eq, Nat.mul_assoc]
    rw [Option.getD_none, hexact, strip_mul_ten_pow (Nat.ne_of_gt hw)]
    have hzero : -(unitBits : Int) + unitBits = 0 := by decide
    exact Int.le_trans (Int.le_of_eq hzero.symm) (le_strip _ _)
  | some d =>
    refine Int.le_trans ?_ (le_strip _ _)
    obtain ⟨before, i, after, hrange, hi, hbefore⟩ := List.findSome?_eq_some_iff.1 hfound
    rw [Option.getD_some, exponent_candidates hw tie (List.mem_of_find?_eq_some hi)]
    -- with more digits than the number has, the number itself would have been found before
    have hle : i + 1 ≤ (Nat.toDigits 10 w).length := by
      by_contra hlt
      have hpos : 0 < (Nat.toDigits 10 w).length := Nat.length_toDigits_pos
      have hmem : (Nat.toDigits 10 w).length - 1 ∈ before := by
        rw [List.range_eq_range'] at hrange
        obtain ⟨k, -, rfl, hk⟩ := List.range'_eq_append_iff.1 hrange
        have hki := (List.range'_eq_cons_iff.1 hk.symm).1
        rw [List.mem_range'_1]
        omega
      have hnone := List.find?_eq_none.1 (hbefore _ hmem) (w, 0)
      rw [Nat.sub_add_cancel hpos] at hnone
      exact hnone (mem_candidates hw tie) (reads_whole h)
    omega

theorem count_of_ofDecimal {negative sign : Bool} {digits : Nat} {exponent : Int} {h : Fits count}
    (he : 0 ≤ exponent) (hread : ofDecimal negative digits exponent = .finite sign count h) :
    count = significant (digits * 10 ^ exponent.toNat) * 2 ^ unitBits := by
  have hden : (-exponent).toNat = 0 := by omega
  rw [ofDecimal_eq_ofRatio, hden, Nat.pow_zero] at hread
  unfold ofRatio at hread
  split at hread
  · rw [← roundCount_one]
    exact (Binary64.finite.inj hread).2.symm
  · cases hread

/-- **A number is whole exactly if its decimal has no places behind the point.** -/
theorem unit_dvd_iff (tie : Tie) (h : Fits count) (hne : count ≠ 0) :
    2 ^ unitBits ∣ count ↔ 0 ≤ (decimal tie count).2 := by
  constructor
  · rintro ⟨w, hw⟩
    rw [Nat.mul_comm _ w] at hw
    have hpos : 0 < w := Nat.pos_of_ne_zero fun e => hne (by rw [hw, e, Nat.zero_mul])
    rw [hw] at h ⊢
    exact decimal_whole hpos tie h
  · intro he
    exact ⟨_, (count_of_ofDecimal he (ofDecimal_decimal tie false h)).trans (Nat.mul_comm _ _)⟩

end Binary64

end Eligibility
