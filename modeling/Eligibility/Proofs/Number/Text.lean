import Eligibility.Proofs.Decimal
import Eligibility.Proofs.Number.Shortest
import Mathlib.Data.List.TakeDrop

/-!
# The text of a number

* `readScaled?_digits`, `readScaled?_point`, **`readScaled?_layout`**: positional notation is read
  back;
* `ofText?_magnitude`: a literal that starts with a digit, behind its sign;
* **`ofText?_text`**: a binary64 number is read back from its text, whatever it is;
* `text_digits`, `text_point`: whole numbers are digits, and all other ones have a point;
* `whole?`, `printed`: a whole number and the one that stands in its text, which is rounded to it;
* **`int64?_text`**, `int64?_text_of_le`: which whole numbers read as 64-bit integers.
-/

namespace Eligibility

namespace Decimal

/-! ## Digits -/

theorem digitsValue_eq (ds : List Char) : digitsValue ds = Nat.ofDigitChars 10 ds 0 := rfl

theorem all_isDigit_zeros (n : Nat) : (List.replicate n '0').all Char.isDigit = true :=
  List.all_eq_true.2 fun c hc => by rw [List.eq_of_mem_replicate hc]; rfl

theorem digitsValue_append_zeros (ds : List Char) (n : Nat) :
    digitsValue (ds ++ List.replicate n '0') = digitsValue ds * 10 ^ n := by
  rw [digitsValue_eq, Nat.ofDigitChars_append, Nat.ofDigitChars_replicate_zero, Nat.mul_comm]
  rfl

theorem digitsValue_zeros_append (n : Nat) (ds : List Char) :
    digitsValue (List.replicate n '0' ++ ds) = digitsValue ds := by
  rw [digitsValue_eq, Nat.ofDigitChars_append, Nat.ofDigitChars_replicate_zero, Nat.mul_zero]
  rfl

/-! ## Positional notation -/

theorem span_isDigit {whole rest : List Char} (h : whole.all Char.isDigit = true)
    (hr : rest.head?.any Char.isDigit = false) :
    (whole ++ rest).span Char.isDigit = (whole, rest) := by
  have hall := List.all_eq_true.1 h
  rw [List.span_eq_takeWhile_dropWhile, List.takeWhile_append_of_pos hall,
    List.dropWhile_append_of_pos hall]
  cases rest with
  | nil => rw [List.takeWhile_nil, List.append_nil, List.dropWhile_nil]
  | cons c cs =>
    have hc : ¬ c.isDigit = true := by rw [show c.isDigit = false from hr]; exact Bool.false_ne_true
    rw [List.takeWhile_cons_of_neg hc, List.append_nil, List.dropWhile_cons_of_neg hc]

theorem readScaled?_digits {ds : List Char} (hne : ds ≠ []) (h : ds.all Char.isDigit = true) :
    readScaled? ds = some (digitsValue ds, 0) := by
  have hspan : (ds ++ []).span Char.isDigit = (ds, []) := span_isDigit h rfl
  rw [List.append_nil] at hspan
  rw [readScaled?, hspan]
  dsimp only [readFraction]
  rw [if_neg fun e => hne e.1, List.append_nil]
  rfl

theorem readScaled?_point {whole fraction : List Char} (hne : whole ≠ [])
    (hwhole : whole.all Char.isDigit = true) (hfraction : fraction.all Char.isDigit = true) :
    readScaled? (whole ++ '.' :: fraction) =
      some (digitsValue (whole ++ fraction), -(fraction.length : Int)) := by
  have hrest : readFraction ('.' :: fraction) = (fraction, []) := by
    have hspan : (fraction ++ []).span Char.isDigit = (fraction, []) := span_isDigit hfraction rfl
    rwa [List.append_nil] at hspan
  rw [readScaled?, span_isDigit hwhole rfl]
  dsimp only
  rw [hrest]
  dsimp only
  rw [if_neg fun e => hne e.1, readExponent?, Option.map_some, Int.zero_sub]

theorem layout_whole (d : Nat) {e : Int} (he : 0 ≤ e) :
    layout d e = Nat.toDigits 10 d ++ List.replicate e.toNat '0' := if_pos he

theorem layout_point (d : Nat) {e : Int} (he : e < 0) :
    ∃ whole fraction, layout d e = whole ++ '.' :: fraction ∧
      (whole ≠ [] ∧ whole.all Char.isDigit = true) ∧
      (fraction ≠ [] ∧ fraction.all Char.isDigit = true) ∧
      digitsValue (whole ++ fraction) = d ∧ -(fraction.length : Int) = e := by
  have hd := all_isDigit_toDigits d
  have hvalue := digitsValue_toDigits d
  have hne : Nat.toDigits 10 d ≠ [] := Nat.toDigits_ne_nil
  obtain ⟨places, hplaces⟩ : ∃ places : Nat, -(places : Int) = e := ⟨(-e).toNat, by omega⟩
  have hlayout : layout d e =
      if places < (Nat.toDigits 10 d).length then
        (Nat.toDigits 10 d).take ((Nat.toDigits 10 d).length - places) ++
          '.' :: (Nat.toDigits 10 d).drop ((Nat.toDigits 10 d).length - places)
      else '0' :: '.' :: List.replicate (places - (Nat.toDigits 10 d).length) '0' ++
        Nat.toDigits 10 d := by
    rw [layout, if_neg (Int.not_le.2 he), show (-e).toNat = places by omega]
  rw [hlayout]
  generalize Nat.toDigits 10 d = ds at hd hvalue hne
  by_cases hlt : places < ds.length
  · have hpart {part : List Char} (hpart : part ⊆ ds) : part.all Char.isDigit = true :=
      List.all_eq_true.2 fun c hc => List.all_eq_true.1 hd c (hpart hc)
    rw [if_pos hlt]
    refine ⟨_, _, rfl, ⟨?_, hpart (List.take_subset _ _)⟩, ⟨?_, hpart (List.drop_subset _ _)⟩,
      ?_, ?_⟩
    · rw [ne_eq, List.take_eq_nil_iff, not_or]
      exact ⟨by omega, hne⟩
    · rw [ne_eq, List.drop_eq_nil_iff]
      omega
    · rw [List.take_append_drop, hvalue]
    · rw [List.length_drop]
      omega
  · rw [if_neg hlt]
    refine ⟨['0'], List.replicate (places - ds.length) '0' ++ ds, rfl, ⟨List.cons_ne_nil _ _, rfl⟩,
      ⟨fun h => hne (List.append_eq_nil_iff.1 h).2, ?_⟩, ?_, ?_⟩
    · rw [List.all_append, all_isDigit_zeros, hd]
      rfl
    · rw [← List.append_assoc, ← List.replicate_one, List.replicate_append_replicate,
        digitsValue_zeros_append, hvalue]
    · rw [List.length_append, List.length_replicate]
      omega

theorem readScaled?_layout (d : Nat) (e : Int) :
    readScaled? (layout d e) = some (d * 10 ^ e.toNat, min e 0) := by
  by_cases he : 0 ≤ e
  · rw [layout_whole d he, readScaled?_digits, digitsValue_append_zeros, digitsValue_toDigits,
      Int.min_eq_right he]
    · exact fun h => Nat.toDigits_ne_nil (List.append_eq_nil_iff.1 h).1
    · rw [List.all_append, all_isDigit_toDigits, all_isDigit_zeros]
      rfl
  · have he : e < 0 := Int.not_le.1 he
    obtain ⟨whole, fraction, hlayout, hw, hf, hvalue, hlength⟩ := layout_point d he
    rw [hlayout, readScaled?_point hw.1 hw.2 hf.2, hvalue, hlength, Int.toNat_of_nonpos (by omega),
      Int.min_eq_left (by omega), Nat.pow_zero, Nat.mul_one]

end Decimal

open Decimal

/-! ## Literals -/

theorem toUpper_of_isDigit {c : Char} (h : c.isDigit = true) : c.toUpper = c := by
  have hc := (Bool.and_eq_true_iff.1 h).2
  rw [decide_eq_true_eq, UInt32.le_iff_toNat_le] at hc
  refine dif_neg fun hlower => ?_
  have hlower := UInt32.le_iff_toNat_le.1 hlower.1
  exact absurd (Nat.le_trans hlower hc) (by decide)

/-- What starts with a digit is no word. -/
theorem upper_ne_of_isDigit {c : Char} (h : c.isDigit = true) (cs : List Char) {w : String}
    (hw : w.toList.head?.any Char.isDigit = false) : Text.upper (.ofList (c :: cs)) ≠ w := by
  rintro rfl
  rw [Text.upper, String.toList_ofList, String.toList_ofList, List.map_cons, List.head?_cons,
    Option.any_some, toUpper_of_isDigit h, h] at hw
  cases hw

namespace Binary64

theorem ofText?_magnitude (negative : Bool) {cs : List Char}
    (h : cs.head?.any Char.isDigit = true) :
    ofText? (.ofList (sign negative ++ cs)) =
      (readScaled? cs).map fun d => .ofDecimal negative d.1 d.2 := by
  rw [ofText?, String.toList_ofList, readSign_sign negative h]
  obtain ⟨c, rest, rfl⟩ := List.exists_cons_of_ne_nil (l := cs) (by rintro rfl; cases h)
  have hinf := upper_ne_of_isDigit h rest (w := "INF") (by decide)
  have hinfinity := upper_ne_of_isDigit h rest (w := "INFINITY") (by decide)
  have hnan := upper_ne_of_isDigit h rest (w := "NAN") (by decide)
  dsimp only
  rw [if_neg (not_or.2 ⟨hinf, hinfinity⟩), if_neg hnan]

/-! ## Texts -/

variable {count : Nat}

/-- The digits and the power of ten that stand in the text of a count. -/
def written (count : Nat) : Nat × Int := if count = 0 then (0, 0) else decimal .larger count

theorem toList_text (negative : Bool) (h : Fits count) :
    (finite negative count h).text.toList =
      sign negative ++ layout (written count).1 (written count).2 :=
  String.toList_ofList

theorem ofDecimal_written (negative : Bool) (h : Fits count) :
    ofDecimal negative (written count).1 (written count).2 = .finite negative count h := by
  by_cases hzero : count = 0
  · subst hzero
    rfl
  · rw [written, if_neg hzero, ofDecimal_decimal .larger negative h]

theorem unit_dvd_iff_written (h : Fits count) : 2 ^ unitBits ∣ count ↔ 0 ≤ (written count).2 := by
  by_cases hzero : count = 0
  · subst hzero
    exact iff_of_true (Nat.dvd_zero _) (Int.le_refl 0)
  · rw [written, if_neg hzero, unit_dvd_iff .larger h hzero]

/-- A whole number is written with digits alone, in front of which the sign stands. -/
theorem text_digits (negative : Bool) (h : Fits count) (hunit : 2 ^ unitBits ∣ count) :
    ∃ ds, (ds ≠ [] ∧ ds.all Char.isDigit = true) ∧
      (finite negative count h).text.toList = sign negative ++ ds ∧
      digitsValue ds = (written count).1 * 10 ^ (written count).2.toNat := by
  have he := (unit_dvd_iff_written h).1 hunit
  refine ⟨_, ⟨?_, ?_⟩, by rw [toList_text, layout_whole _ he], ?_⟩
  · exact fun e => Nat.toDigits_ne_nil (List.append_eq_nil_iff.1 e).1
  · rw [List.all_append, all_isDigit_toDigits, all_isDigit_zeros]
    rfl
  · rw [digitsValue_append_zeros, digitsValue_toDigits]

/-- A number that is not whole is written with a point. -/
theorem text_point (negative : Bool) (h : Fits count) (hunit : ¬ 2 ^ unitBits ∣ count) :
    ∃ whole fraction, (whole ≠ [] ∧ whole.all Char.isDigit = true) ∧
      (fraction ≠ [] ∧ fraction.all Char.isDigit = true) ∧
      (finite negative count h).text.toList =
        sign negative ++ (whole ++ '.' :: fraction) := by
  rw [unit_dvd_iff_written h, Int.not_le] at hunit
  obtain ⟨whole, fraction, hlayout, hw, hf, -, -⟩ := layout_point (written count).1 hunit
  exact ⟨whole, fraction, hw, hf, by rw [toList_text, hlayout]⟩

theorem head?_layout (d : Nat) (e : Int) : (layout d e).head?.any Char.isDigit = true := by
  by_cases he : 0 ≤ e
  · rw [layout_whole d he]
    exact head?_isDigit Nat.toDigits_ne_nil (all_isDigit_toDigits d) _
  · obtain ⟨whole, fraction, hlayout, hw, -⟩ := layout_point d (Int.not_le.1 he)
    rw [hlayout]
    exact head?_isDigit hw.1 hw.2 _

/-- **A binary64 number is read back from its text.** -/
theorem ofText?_text (x : Binary64) : ofText? x.text = some x := by
  match x with
  | .nan => rfl
  | .infinite true => rfl
  | .infinite false => rfl
  | .finite negative count h =>
    have hread := ofDecimal_mul_ten_pow negative (written count).1 (written count).2.toNat
      (min (written count).2 0)
    have hexponent : min (written count).2 0 + (written count).2.toNat = (written count).2 := by
      omega
    rw [hexponent, ofDecimal_written negative h] at hread
    rw [← String.ofList_toList (s := (finite negative count h).text), toList_text,
      ofText?_magnitude negative (head?_layout _ _), readScaled?_layout]
    exact congrArg some hread

/-! ## Whole numbers -/

/-- The whole number that a binary64 number is. -/
def whole? : Binary64 → Option Int
  | finite negative count _ =>
    if 2 ^ unitBits ∣ count then some (signed negative (count / 2 ^ unitBits)) else none
  | _ => none

/-- The whole number that stands in the text of a whole number. -/
def printed (w : Nat) : Nat :=
  (written (w * 2 ^ unitBits)).1 * 10 ^ (written (w * 2 ^ unitBits)).2.toNat

theorem significant_printed {w : Nat} (h : Fits (w * 2 ^ unitBits)) :
    significant (printed w) = w := by
  have he := (unit_dvd_iff_written h).1 (Nat.dvd_mul_left _ _)
  have hcount := count_of_ofDecimal he (ofDecimal_written false h)
  exact (Nat.eq_of_mul_eq_mul_right (Nat.two_pow_pos _) hcount).symm

theorem printed_lt {w k : Nat} (h : Fits (w * 2 ^ unitBits)) (hw : w < 2 ^ k) :
    printed w < 2 ^ k := by
  by_contra hle
  have := two_pow_le_significant (Nat.le_of_not_lt hle)
  rw [significant_printed h] at this
  exact absurd hw (Nat.not_lt.2 this)

theorem printed_of_lt {w : Nat} (h : Fits (w * 2 ^ unitBits)) (hw : w < 2 ^ 53) :
    printed w = w := by
  have := significant_printed h
  rwa [significant_of_lt (printed_lt h hw)] at this

theorem lt_printed {w : Nat} (h : Fits (w * 2 ^ unitBits)) (hw : 2 ^ 63 ≤ w) :
    2 ^ 63 < printed w := by
  by_contra hle
  have hround := significant_le_two_pow (Nat.le_of_not_lt hle)
  rw [significant_printed h] at hround
  -- the number `2 ^ 63` itself is written as a greater one, with fewer digits
  have hlimit : printed (2 ^ 63) = 9223372036854776000 := by decide +kernel
  rw [Nat.le_antisymm hround hw, hlimit] at hle
  exact hle (by decide)

/-- A whole number is written with the digits of the whole number that its text prints. -/
theorem text_whole {x : Binary64} {i : Int} (h : x.whole? = some i) :
    Fits (i.natAbs * 2 ^ unitBits) ∧ ∃ negative ds, i = signed negative i.natAbs ∧
      (ds ≠ [] ∧ ds.all Char.isDigit = true) ∧ x.text.toList = sign negative ++ ds ∧
      digitsValue ds = printed i.natAbs := by
  match x with
  | .finite negative count hf =>
    rw [whole?] at h
    split at h
    · rename_i hunit
      obtain ⟨ds, hds, htext, hvalue⟩ := text_digits negative hf hunit
      have hcount : count / 2 ^ unitBits * 2 ^ unitBits = count := Nat.div_mul_cancel hunit
      obtain rfl := Option.some.inj h
      rw [natAbs_signed, printed, hcount]
      exact ⟨hf, negative, ds, rfl, hds, htext, hvalue⟩
    · cases h

theorem int64?_text {x : Binary64} {i : Int} (h : x.whole? = some i) (hi : i.natAbs < 2 ^ 63) :
    ∃ n : Int64, int64? x.text = some n ∧ (i.natAbs < 2 ^ 53 → n.toInt = i) := by
  obtain ⟨hfits, negative, ds, hsigned, hds, htext, hvalue⟩ := text_whole h
  have hlt := printed_lt hfits hi
  have habs := natAbs_signed negative (printed i.natAbs)
  have hrange : -2 ^ 63 ≤ signed negative (printed i.natAbs) ∧
      signed negative (printed i.natAbs) < 2 ^ 63 := by omega
  refine ⟨.ofInt (signed negative (printed i.natAbs)), ?_, fun hexact => ?_⟩
  · rw [int64?_digits negative hds.1 hds.2 htext, hvalue, if_pos hrange]
  · rw [Int64.toInt_ofInt_of_le hrange.1 hrange.2, printed_of_lt hfits hexact, ← hsigned]

theorem int64?_text_of_le {x : Binary64} {i : Int} (h : x.whole? = some i)
    (hi : 2 ^ 63 ≤ i.natAbs) : int64? x.text = none := by
  obtain ⟨hfits, negative, ds, -, hds, htext, hvalue⟩ := text_whole h
  have hlt := lt_printed hfits hi
  have habs := natAbs_signed negative (printed i.natAbs)
  have hrange : ¬ (-2 ^ 63 ≤ signed negative (printed i.natAbs) ∧
      signed negative (printed i.natAbs) < 2 ^ 63) := by omega
  rw [int64?_digits negative hds.1 hds.2 htext, hvalue, if_neg hrange]

end Binary64

end Eligibility
