import Eligibility.Plan.Leaf
import Eligibility.Proofs.Script.Piece
import Eligibility.Proofs.Token.Edge
import Eligibility.Proofs.Token.Number

/-!
# Number literals

A literal with a point is read as a binary64 number. A binary64 number is written without looking
back at its literal, and where it is whole it is written without a point.

* `tokenize_numeral`: a text that is a number as a whole is one token;
* `Value.Survives`: the text of a value is one number token that reads as the value;
* `Value.int_survives`: every 64-bit integer survives;
* **`Value.float_survives_iff`**: a binary64 number survives if it is finite and no whole number
  within the 64-bit integers; `Value.ofNumber?_whole`: such a one reads as an integer;
* **`number_rewritten`**: what every number token is read as, and what becomes of its value.
-/

namespace Eligibility

open Decimal

/-! ## One token -/

theorem tokenize_numeral (negative : Bool) {cs : List Char} {s : String}
    (hs : s.toList = sign negative ++ cs) (h : cs.head?.any Char.isDigit = true)
    (hw : magnitudeWidth cs = cs.length) : (tokenize s).tokens = [⟨.number, s, .first⟩] := by
  have hne : s.toList ≠ [] := by
    rw [hs]
    rintro e
    rw [(List.append_eq_nil_iff.1 e).2] at h
    cases h
  have hgap : gapWidth false s.toList = 0 := gapWidth_of_isInk (by rw [hs, head?_numeral _ h])
  have hk : TokenKind.number ≠ .newline := by decide
  have hl : lexeme s.toList = ⟨.number, s, s.toList.length⟩ := by
    have hw : magnitudeWidth (cs ++ []) = cs.length := by rwa [List.append_nil]
    have := lexeme_numeral negative h hw
    rwa [List.append_nil, ← hs, String.ofList_toList] at this
  rw [tokenize, tokensFrom_single hne hgap hk hl]

theorem tokenize_digits (negative : Bool) {ds : List Char} {s : String}
    (hs : s.toList = sign negative ++ ds) (h : ds ≠ [] ∧ ds.all Char.isDigit = true) :
    (tokenize s).tokens = [⟨.number, s, .first⟩] := by
  have hhead := head?_isDigit h.1 h.2 []
  rw [List.append_nil] at hhead
  exact tokenize_numeral negative hs hhead (magnitudeWidth_digits h.2)

namespace Value

/-! ## Values -/

/-- The text of the value is one number token, and the value is read back from it. -/
def Survives (v : Value) : Prop :=
  (tokenize v.text).tokens = [⟨.number, v.text, .first⟩] ∧ ofNumber? v.text = some v

theorem ofNumber?_of_dot {s : String} (h : '.' ∈ s.toList) :
    ofNumber? s = (Binary64.ofText? s).map float := if_pos h

theorem ofNumber?_of_int64 {s : String} {n : Int64} (h : '.' ∉ s.toList)
    (hn : int64? s = some n) : ofNumber? s = some (int n) := by
  rw [ofNumber?, if_neg h, hn, Option.map_some, Option.some_or]

theorem ofNumber?_of_none {s : String} (h : '.' ∉ s.toList) (hn : int64? s = none) :
    ofNumber? s = (Binary64.ofText? s).map float := by
  rw [ofNumber?, if_neg h, hn, Option.map_none, Option.none_or]

theorem int_survives (n : Int64) : (int n).Survives := by
  have hdigits := And.intro (toList_repr_ne_nil n.toInt.natAbs) (all_isDigit_repr n.toInt.natAbs)
  exact ⟨tokenize_digits _ (toList_toString n.toInt) hdigits,
    ofNumber?_of_int64 (dot_notMem_toString _) (int64?_toString n)⟩

/-! ## Binary64 numbers -/

section Float

variable {x : Binary64} {i : Int}

theorem text_float (x : Binary64) : (float x).text = x.text := rfl

theorem tokenize_whole (h : x.whole? = some i) :
    (tokenize x.text).tokens = [⟨.number, x.text, .first⟩] := by
  obtain ⟨-, negative, ds, -, hds, htext, -⟩ := Binary64.text_whole h
  exact tokenize_digits negative htext hds

theorem dot_notMem_whole (h : x.whole? = some i) : '.' ∉ x.text.toList := by
  obtain ⟨-, negative, ds, -, hds, htext, -⟩ := Binary64.text_whole h
  rw [htext]
  exact dot_notMem_sign negative hds.2

/-- A whole number within the 64-bit integers is read back as one of them. -/
theorem ofNumber?_whole (h : x.whole? = some i) (hi : i.natAbs < 2 ^ 63) :
    ∃ n : Int64, ofNumber? x.text = some (int n) ∧ (i.natAbs < 2 ^ 53 → n.toInt = i) := by
  obtain ⟨n, hn, hexact⟩ := Binary64.int64?_text h hi
  exact ⟨n, ofNumber?_of_int64 (dot_notMem_whole h) hn, hexact⟩

theorem whole_survives (h : x.whole? = some i) (hi : 2 ^ 63 ≤ i.natAbs) : (float x).Survives := by
  refine ⟨tokenize_whole h, ?_⟩
  have hnone := Binary64.int64?_text_of_le h hi
  rw [text_float, ofNumber?_of_none (dot_notMem_whole h) hnone, Binary64.ofText?_text,
    Option.map_some]

theorem fraction_survives (hfinite : x.isFinite = true) (h : x.whole? = none) :
    (float x).Survives := by
  match x with
  | .finite negative count hf =>
    have hunit : ¬ 2 ^ Binary64.unitBits ∣ count := by
      intro hdvd
      rw [Binary64.whole?, if_pos hdvd] at h
      cases h
    obtain ⟨whole, fraction, hw, hfr, htext⟩ := Binary64.text_point negative hf hunit
    refine ⟨tokenize_numeral negative htext (head?_isDigit hw.1 hw.2 _)
      (magnitudeWidth_decimal hw.2 hfr.2 hfr.1), ?_⟩
    have hdot : '.' ∈ (Binary64.finite negative count hf).text.toList := by
      rw [htext]
      simp
    rw [text_float, ofNumber?_of_dot hdot, Binary64.ofText?_text, Option.map_some]

/-- A number that is not finite is written as a word. -/
theorem not_survives_of_not_finite (h : x.isFinite = false) : ¬ (float x).Survives := by
  intro hs
  have htokens := hs.1
  cases x with
  | finite negative count hf => cases h
  | infinite negative => cases negative <;> exact absurd htokens (by decide +kernel)
  | nan => exact absurd htokens (by decide +kernel)

/-- **A binary64 number survives exactly if it is finite and, where it is whole, outside the 64-bit
integers.** -/
theorem float_survives_iff (x : Binary64) :
    (float x).Survives ↔ x.isFinite = true ∧ ∀ i, x.whole? = some i → 2 ^ 63 ≤ i.natAbs := by
  constructor
  · intro hs
    refine ⟨?_, fun i hi => ?_⟩
    · by_contra hfinite
      exact not_survives_of_not_finite (Bool.not_eq_true _ ▸ hfinite) hs
    · by_contra hlt
      obtain ⟨n, hn, -⟩ := ofNumber?_whole hi (Nat.lt_of_not_le hlt)
      have := hs.2.symm.trans hn
      cases this
  · rintro ⟨hfinite, hwhole⟩
    cases hx : x.whole? with
    | none => exact fraction_survives hfinite hx
    | some i => exact whole_survives hx (hwhole i hx)

end Float

theorem literal_text {v : Value} (h : v.isNumeric = true) (m : Mapping) :
    (m.literal v).text = v.text := by
  cases v with
  | int n => rfl
  | float x => rfl
  | bool b => cases h
  | string s => cases h
  | identifier s => cases h

theorem cases_of_ofNumber? {s : String} {v : Value} (h : ofNumber? s = some v) :
    (∃ n, v = int n) ∨ ∃ x, v = float x := by
  by_cases hdot : '.' ∈ s.toList
  · rw [ofNumber?_of_dot hdot, Option.map_eq_some_iff] at h
    obtain ⟨x, -, rfl⟩ := h
    exact .inr ⟨x, rfl⟩
  · cases hn : int64? s with
    | some n =>
      rw [ofNumber?_of_int64 hdot hn] at h
      exact .inl ⟨n, (Option.some.inj h).symm⟩
    | none =>
      rw [ofNumber?_of_none hdot hn, Option.map_eq_some_iff] at h
      obtain ⟨x, -, rfl⟩ := h
      exact .inr ⟨x, rfl⟩

theorem ofNumber?_digits {negative : Bool} {ds : List Char} {s : String}
    (hs : s.toList = sign negative ++ ds) (h : ds ≠ [] ∧ ds.all Char.isDigit = true)
    (hlow : -2 ^ 63 ≤ signed negative (Nat.ofDigitChars 10 ds 0))
    (hhigh : signed negative (Nat.ofDigitChars 10 ds 0) < 2 ^ 63) :
    ∃ n : Int64, ofNumber? s = some (int n) ∧
      n.toInt = signed negative (Nat.ofDigitChars 10 ds 0) := by
  have hdot : '.' ∉ s.toList := by
    rw [hs]
    exact dot_notMem_sign negative h.2
  have hn := int64?_digits negative h.1 h.2 hs
  rw [digitsValue_eq, if_pos ⟨hlow, hhigh⟩] at hn
  exact ⟨_, ofNumber?_of_int64 hdot hn, Int64.toInt_ofInt_of_le hlow hhigh⟩

end Value

/-! ## Tokens -/

/-- **What a number token is read as, and what becomes of its value in print.** -/
theorem number_rewritten {text : String} {t : Token} (ht : t ∈ (tokenize text).tokens)
    (hk : t.kind = .number) :
    ∃ v, Value.ofNumber? t.text = some v ∧ (∀ m : Mapping, (m.literal v).text = v.text) ∧
      (∀ (negative : Bool) (ds : List Char), t.text.toList = sign negative ++ ds →
        ds ≠ [] ∧ ds.all Char.isDigit = true →
        -2 ^ 63 ≤ signed negative (Nat.ofDigitChars 10 ds 0) →
        signed negative (Nat.ofDigitChars 10 ds 0) < 2 ^ 63 →
        ∃ n : Int64, v = .int n ∧ n.toInt = signed negative (Nat.ofDigitChars 10 ds 0)) ∧
      ((∃ n, v = .int n) ∧ v.Survives ∨
        ∃ x, v = .float x ∧ Binary64.ofText? v.text = some x ∧
          (v.Survives ↔ x.isFinite = true ∧ ∀ i, x.whole? = some i → 2 ^ 63 ≤ i.natAbs) ∧
          ∀ i, x.whole? = some i → i.natAbs < 2 ^ 63 →
            (tokenize v.text).tokens = [⟨.number, v.text, .first⟩] ∧
              ∃ n : Int64, Value.ofNumber? v.text = some (.int n) ∧
                (i.natAbs < 2 ^ 53 → n.toInt = i)) := by
  obtain ⟨v, hv⟩ := number_has_value ht hk
  have hcases := Value.cases_of_ofNumber? hv
  refine ⟨v, hv, Value.literal_text ?_, fun negative ds hs hds hlow hhigh => ?_, ?_⟩
  · rcases hcases with ⟨n, rfl⟩ | ⟨x, rfl⟩ <;> rfl
  · obtain ⟨n, hn, hvalue⟩ := Value.ofNumber?_digits hs hds hlow hhigh
    exact ⟨n, Option.some.inj (hv.symm.trans hn), hvalue⟩
  · rcases hcases with ⟨n, rfl⟩ | ⟨x, rfl⟩
    · exact .inl ⟨⟨n, rfl⟩, Value.int_survives n⟩
    · exact .inr ⟨x, rfl, Binary64.ofText?_text x, Value.float_survives_iff x,
        fun i hi hlt => ⟨Value.tokenize_whole hi, Value.ofNumber?_whole hi hlt⟩⟩

/-- The least 64-bit integer. -/
theorem leastInteger_rewritten :
    ⟨.number, "-9223372036854775808", .first⟩ ∈ (tokenize "-9223372036854775808").tokens ∧
      ∃ n : Int64, Value.ofNumber? "-9223372036854775808" = some (.int n) ∧
        n.toInt = -2 ^ 63 ∧ (Value.int n).Survives := by
  have htokens : (tokenize "-9223372036854775808").tokens =
      [⟨.number, "-9223372036854775808", .first⟩] := by decide +kernel
  have hmem : ⟨.number, "-9223372036854775808", .first⟩ ∈
      (tokenize "-9223372036854775808").tokens := by
    rw [htokens]
    exact List.mem_singleton_self _
  obtain ⟨v, hv, -, hint, hprint⟩ := number_rewritten hmem rfl
  obtain ⟨n, rfl, hn⟩ := hint true "9223372036854775808".toList (by decide) (by decide)
    (by decide) (by decide)
  refine ⟨hmem, n, hv, hn, ?_⟩
  rcases hprint with ⟨-, hs⟩ | ⟨x, hx, -⟩
  · exact hs
  · cases hx

/-- The number `2 ^ 62` with a point is written without one, and with fewer digits that count. -/
theorem wholeDecimal_misread :
    (tokenize "4611686018427387904.0").tokens =
        [⟨.number, "4611686018427387904.0", .first⟩] ∧
      (Value.ofNumber? "4611686018427387904.0").map Value.text = some "4611686018427388000" ∧
      Value.ofNumber? "4611686018427388000" = some (.int 4611686018427388000) ∧
      ¬ ∃ v, Value.ofNumber? "4611686018427387904.0" = some v ∧ v.Survives := by
  have htext :
      (Value.ofNumber? "4611686018427387904.0").map Value.text = some "4611686018427388000" := by
    decide +kernel
  have hread : Value.ofNumber? "4611686018427388000" = some (.int 4611686018427388000) := by
    decide +kernel
  refine ⟨by decide +kernel, htext, hread, ?_⟩
  rintro ⟨v, hv, -, hs⟩
  rw [hv, Option.map_some, Option.some.injEq] at htext
  rw [htext, hread] at hs
  have hdiffers : Value.ofNumber? "4611686018427387904.0" ≠ some (.int 4611686018427388000) := by
    decide +kernel
  exact hdiffers (hv.trans hs.symm)

end Eligibility
