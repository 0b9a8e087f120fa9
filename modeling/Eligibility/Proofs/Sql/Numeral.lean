import Eligibility.Number.Shortest
import Eligibility.Proofs.Number.Text
import Eligibility.Proofs.Sql.Reading
import Eligibility.Proofs.Width

/-!
# Numbers in SQL text

* `intItems`: a whole number is its digits, after a minus if it is negative;
* **`shows_int`**, **`shows_float`**: the text of a number reads as a number, whatever its size.
-/

namespace Eligibility.Sql

open Decimal (all_isDigit_repr all_isDigit_toDigits toList_repr_ne_nil)

/-! ## Digits -/

theorem writes_number {s : String} {c : Char} {cs : List Char} (hs : s.toList = c :: cs)
    (hc : c.isDigit = true) (hw : magnitudeWidth (c :: cs) = (c :: cs).length) :
    Writes s [.number s] := by
  refine writes_token hs (isSpace_of_kind hc rfl) ?_ (by simp)
  rw [token?_number hc, hw, List.take_length, List.length_cons, Nat.add_sub_cancel,
    List.drop_length, ← hs, String.ofList_toList]

theorem writes_digits {s : String} (hn : s.toList ≠ []) (h : s.toList.all Char.isDigit = true) :
    Writes s [.number s] := by
  obtain ⟨c, cs, hs⟩ := List.exists_cons_of_ne_nil hn
  rw [hs] at h
  exact writes_number hs (Bool.and_eq_true_iff.1 h).1 (magnitudeWidth_digits h)

theorem writes_decimal {s : String} {cs ds : List Char} (hs : s.toList = cs ++ '.' :: ds)
    (hc : cs.all Char.isDigit = true) (hcn : cs ≠ []) (hd : ds.all Char.isDigit = true)
    (hdn : ds ≠ []) : Writes s [.number s] := by
  obtain ⟨c, cs, rfl⟩ := List.exists_cons_of_ne_nil hcn
  exact writes_number hs (Bool.and_eq_true_iff.1 hc).1 (magnitudeWidth_decimal hc hd hdn)

/-- A minus in front of text that does not start with another. -/
theorem writes_minus {s : String} {ts : List Token} (h : Writes s ts)
    (hs : s.toList.head? ≠ some '-') : Writes ("-" ++ s) (.symbol "-" :: ts) := by
  intro cs hcs
  have hh : (s.toList ++ cs).head? ≠ some '-' := by
    cases hl : s.toList with
    | nil => exact hcs.head?_ne (by decide)
    | cons d ds => rw [hl] at hs; exact hs
  have hp : (s.toList ++ cs).head?.any (isPair '-') = false := by
    cases s.toList ++ cs with
    | nil => rfl
    | cons d ds => simp [isPair]
  rw [String.toList_append, List.append_assoc]
  change tokens ('-' :: (s.toList ++ cs)) = _
  have ht : token? '-' (s.toList ++ cs) = some (.symbol "-", s.toList ++ cs) := by
    simp only [token?, hh, hp]; rfl
  rw [tokens_cons rfl, ht, Option.bind_some, h cs hcs]
  exact map_append_map [.symbol "-"] ts _

/-! ## Whole numbers -/

/-- The items of a whole number. -/
def intItems (i : Int) : List Item :=
  (if i < 0 then [.token (.symbol "-")] else []) ++ [.token (.number i.natAbs.repr)]

theorem writes_repr (n : Nat) : Writes n.repr [.number n.repr] :=
  writes_digits (toList_repr_ne_nil n) (all_isDigit_repr n)

/-- Digits read as the number that they are. -/
theorem shows_digits {s : String} (hn : s.toList ≠ []) (h : s.toList.all Char.isDigit = true) :
    Shows s [.token (.number s)] :=
  ⟨writes_digits hn h, by simp [AllPlain, Item.Plain]⟩

theorem head?_ne_of_all_isDigit {cs : List Char} (h : cs.all Char.isDigit = true) :
    cs.head? ≠ some '-' := by
  intro e
  obtain ⟨ds, rfl⟩ := List.head?_eq_some_iff.1 e
  cases (Bool.and_eq_true_iff.1 h).1

/-- The text of a whole number reads as the number. -/
theorem shows_int (i : Int) : Shows (toString i) (intItems i) := by
  rw [Int.toString_eq_repr, Int.repr_eq_if, intItems]
  by_cases h : 0 ≤ i
  · rw [if_pos h, if_neg (Int.not_lt.2 h), show i.toNat = i.natAbs by omega]
    exact shows_digits (toList_repr_ne_nil _) (all_isDigit_repr _)
  · rw [if_neg h, if_pos (Int.not_le.1 h), show (-i).toNat = i.natAbs by omega]
    exact ⟨writes_minus (writes_repr _) (head?_ne_of_all_isDigit (all_isDigit_repr _)),
      by simp [AllPlain, Item.Plain]⟩

theorem intItems_quiet (i : Int) : ∀ j ∈ intItems i, j.Quiet := by
  intro j hj
  rw [intItems] at hj
  split at hj <;> simp only [List.cons_append, List.nil_append, List.mem_cons, List.not_mem_nil,
    or_false] at hj
  · rcases hj with rfl | rfl <;> exact ⟨rfl, rfl, rfl⟩
  · rw [hj]; exact ⟨rfl, rfl, rfl⟩

/-! ## Binary64 numbers -/

theorem layout_cases (d : Nat) (e : Int) :
    (Decimal.layout d e ≠ [] ∧ (Decimal.layout d e).all Char.isDigit = true) ∨
      ∃ cs ds, Decimal.layout d e = cs ++ '.' :: ds ∧ cs.all Char.isDigit = true ∧ cs ≠ [] ∧
        ds.all Char.isDigit = true ∧ ds ≠ [] := by
  by_cases he : 0 ≤ e
  · refine .inl ?_
    rw [Decimal.layout_whole d he, List.all_append, all_isDigit_toDigits, Decimal.all_isDigit_zeros]
    exact ⟨fun h => Nat.toDigits_ne_nil (List.append_eq_nil_iff.1 h).1, rfl⟩
  · obtain ⟨cs, ds, hlayout, hcs, hds, -, -⟩ := Decimal.layout_point d (Int.not_le.1 he)
    exact .inr ⟨cs, ds, hlayout, hcs.2, hcs.1, hds.2, hds.1⟩

theorem writes_layout (d : Nat) (e : Int) :
    Writes (.ofList (Decimal.layout d e)) [.number (.ofList (Decimal.layout d e))] ∧
      (Decimal.layout d e).head? ≠ some '-' := by
  rcases layout_cases d e with ⟨hn, h⟩ | ⟨cs, ds, he, hc, hcn, hd, hdn⟩
  · exact ⟨writes_digits (by rwa [String.toList_ofList]) (by rwa [String.toList_ofList]),
      head?_ne_of_all_isDigit h⟩
  · refine ⟨writes_decimal (by rw [String.toList_ofList, he]) hc hcn hd hdn, ?_⟩
    obtain ⟨c, cs, rfl⟩ := List.exists_cons_of_ne_nil hcn
    rw [he]
    have := head?_ne_of_all_isDigit hc
    exact this

/-- The text of a finite number reads as a number, with a sign in front of a negative one. -/
theorem writes_finite (negative : Bool) (count : Nat) (h : Fits count) : ∃ n,
    Writes (Binary64.finite negative count h).text
      ((if negative then [.symbol "-"] else []) ++ [.number n]) := by
  let d := if count = 0 then (0, 0) else Binary64.decimal .larger count
  obtain ⟨hw, hh⟩ := writes_layout d.1 d.2
  refine ⟨.ofList (Decimal.layout d.1 d.2), ?_⟩
  cases negative with
  | false => exact hw
  | true =>
    have := writes_minus hw (by rwa [String.toList_ofList])
    rwa [show "-" = String.ofList ['-'] from rfl, ← String.ofList_append] at this

theorem shows_quiet {s : String} {ts : List Token} (h : Writes s ts) (hn : ts ≠ [])
    (hts : ∀ t ∈ ts, t.isPlain = true ∧ (Item.token t).Quiet) :
    ∃ is, Shows s is ∧ is ≠ [] ∧ ∀ i ∈ is, i.Quiet := by
  have hplain := all_isPlain (all_isPlain_map_token fun t ht => (hts t ht).1)
  refine ⟨ts.map .token, ⟨?_, hplain.1⟩, ?_, List.forall_mem_map.2 fun t ht => (hts t ht).2⟩
  · rwa [itemTokens_map_token]
  · rwa [ne_eq, List.map_eq_nil_iff]

theorem shows_signed {s : String} {negative : Bool} {t : Token}
    (h : Writes s ((if negative then [.symbol "-"] else []) ++ [t]))
    (ht : t.isPlain = true ∧ (Item.token t).Quiet) :
    ∃ is, Shows s is ∧ is ≠ [] ∧ ∀ i ∈ is, i.Quiet := by
  refine shows_quiet h (List.append_ne_nil_of_right_ne_nil _ (List.cons_ne_nil _ _)) ?_
  have hminus : Token.isPlain (.symbol "-") = true ∧ (Item.token (.symbol "-")).Quiet :=
    ⟨rfl, rfl, rfl, rfl⟩
  cases negative
  · exact List.forall_mem_singleton.2 ht
  · exact List.forall_mem_cons.2 ⟨hminus, List.forall_mem_singleton.2 ht⟩

/-- The text of a binary64 number reads as a number or as a word that is no keyword. -/
theorem shows_float (x : Binary64) :
    ∃ is, Shows x.text is ∧ is ≠ [] ∧ ∀ i ∈ is, i.Quiet := by
  match x with
  | .nan =>
    have hw : Writes "NaN" [.word "NaN"] := writes_of_tokens (by decide +kernel) (by decide)
    exact shows_quiet hw (List.cons_ne_nil _ _) (List.forall_mem_singleton.2 ⟨rfl, rfl, rfl, rfl⟩)
  | .infinite negative =>
    have hw : Writes (Binary64.infinite negative).text
        ((if negative then [.symbol "-"] else []) ++ [.word "inf"]) := by
      cases negative <;> exact writes_of_tokens (by decide +kernel) (by decide)
    exact shows_signed hw ⟨rfl, rfl, rfl, rfl⟩
  | .finite negative count h =>
    obtain ⟨n, hw⟩ := writes_finite negative count h
    exact shows_signed hw ⟨rfl, rfl, rfl, rfl⟩

end Eligibility.Sql
