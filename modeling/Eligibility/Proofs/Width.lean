import Eligibility.Token.Lexeme

/-!
# Widths

* `Breaks`: what may follow a token without becoming part of it;
* **`runWidth_append`**, **`tailWidth_append`**, **`magnitudeWidth_append`**: no width changes when
  such text follows;
* `runWidth_of_all`, `magnitudeWidth_digits`, `magnitudeWidth_decimal`: runs, and numbers alone;
* `ne_of_kind`, `not_mem_of_kind`: characters of a kind and others;
* `isWordStart_of_isDigit`: no word starts with a digit.
-/

namespace Eligibility

/-! ## Breaks -/

/-- The characters that are part of no token before them. -/
def breakers : List Char := [' ', '(', ')', ',', ':', '\n']

/-- Nothing, or a character that is part of no token before it. -/
def Breaks (cs : List Char) : Prop := cs.head?.all (· ∈ breakers) = true

instance (cs : List Char) : Decidable (Breaks cs) := inferInstanceAs (Decidable (_ = true))

theorem breaks_nil : Breaks [] := rfl

theorem breaks_cons {c : Char} (h : c ∈ breakers) (cs : List Char) : Breaks (c :: cs) :=
  decide_eq_true h

theorem breaks_space (cs : List Char) : Breaks (' ' :: cs) := rfl

theorem Breaks.eq_cons {cs : List Char} (h : Breaks cs) :
    cs = [] ∨ ∃ c ∈ breakers, ∃ ds, cs = c :: ds := by
  cases cs with
  | nil => exact .inl rfl
  | cons c cs => exact .inr ⟨c, of_decide_eq_true h, cs, rfl⟩

/-- A property of none of the breaking characters fails at the front of a breaking text. -/
theorem Breaks.head?_any {cs : List Char} (h : Breaks cs) {p : Char → Bool}
    (hp : breakers.any p = false) : cs.head?.any p = false := by
  cases cs with
  | nil => rfl
  | cons c cs =>
    have hc : c ∈ breakers := of_decide_eq_true h
    exact Bool.eq_false_iff.2 (List.any_eq_false.1 hp c hc)

theorem Breaks.head?_ne {cs : List Char} (h : Breaks cs) {q : Char} (hq : q ∉ breakers) :
    cs.head? ≠ some q := by
  cases cs with
  | nil => exact nofun
  | cons c cs =>
    have hc : c ∈ breakers := of_decide_eq_true h
    exact fun e => hq (Option.some.inj e ▸ hc)

theorem head?_append_any {cs ds : List Char} {p : Char → Bool} (hd : ds.head?.any p = false) :
    (cs ++ ds).head?.any p = cs.head?.any p := by
  cases cs with
  | nil => rw [List.nil_append, hd]; rfl
  | cons c cs => rfl

/-! ## Runs -/

section Run

variable {p : Char → Bool}

theorem runWidth_le (p : Char → Bool) (cs : List Char) : runWidth p cs ≤ cs.length :=
  (List.takeWhile_sublist _).length_le

theorem runWidth_append_of_all {cs : List Char} (h : cs.all p = true) (ds : List Char) :
    runWidth p (cs ++ ds) = cs.length + runWidth p ds := by
  rw [runWidth, List.takeWhile_append_of_pos (List.all_eq_true.1 h), List.length_append]; rfl

theorem runWidth_of_all {cs : List Char} (h : cs.all p = true) : runWidth p cs = cs.length := by
  have := runWidth_append_of_all h []
  rwa [List.append_nil] at this

theorem runWidth_eq_zero {cs : List Char} (h : cs.head?.any p = false) : runWidth p cs = 0 := by
  cases cs with
  | nil => rfl
  | cons c cs =>
    have hc : p c = false := h
    rw [runWidth, List.takeWhile_cons, hc]; rfl

theorem runWidth_append (cs : List Char) {ds : List Char} (hd : ds.head?.any p = false) :
    runWidth p (cs ++ ds) = runWidth p cs := by
  induction cs with
  | nil => exact runWidth_eq_zero hd
  | cons c cs ih =>
    simp only [runWidth, List.cons_append, List.takeWhile_cons] at ih ⊢
    split <;> simp [ih]

end Run

theorem tailWidth_append_of_head (cs : List Char) {ds : List Char}
    (hw : ds.head?.any isWordChar = false) (hp : ds.head? ≠ some '.') :
    tailWidth (cs ++ ds) = tailWidth cs := by
  induction cs with
  | nil =>
    cases ds with
    | nil => rfl
    | cons d ds =>
      have hc : isWordChar d = false := hw
      have hd : (d == '.') = false := beq_eq_false_iff_ne.2 fun e => hp (congrArg some e)
      simp [tailWidth, hc, hd]
  | cons c cs ih => simp only [List.cons_append, tailWidth, head?_append_any hw, ih]

theorem tailWidth_append (cs : List Char) {ds : List Char} (hd : Breaks ds) :
    tailWidth (cs ++ ds) = tailWidth cs :=
  tailWidth_append_of_head cs (hd.head?_any (by decide)) (hd.head?_ne (by decide))

/-! ## Numbers -/

theorem fractionWidth_le (cs : List Char) : fractionWidth cs ≤ cs.length := by
  unfold fractionWidth
  split
  · rename_i cs
    have := runWidth_le Char.isDigit cs
    split <;> simp only [List.length_cons] <;> omega
  · exact Nat.zero_le _

theorem magnitudeWidth_le (cs : List Char) : magnitudeWidth cs ≤ cs.length := by
  have h := runWidth_le Char.isDigit cs
  have := fractionWidth_le (cs.drop (runWidth Char.isDigit cs))
  rw [List.length_drop] at this
  show _ + _ ≤ _
  omega

theorem fractionWidth_of_ne {c : Char} (h : c ≠ '.') (cs : List Char) :
    fractionWidth (c :: cs) = 0 := by
  unfold fractionWidth
  split
  · rename_i hc; exact absurd (List.cons.inj hc).1 h
  · rfl

theorem fractionWidth_append_of_head (cs : List Char) {ds : List Char}
    (hdigit : ds.head?.any Char.isDigit = false) (hp : ds.head? ≠ some '.') :
    fractionWidth (cs ++ ds) = fractionWidth cs := by
  cases cs with
  | nil =>
    cases ds with
    | nil => rfl
    | cons d ds => exact fractionWidth_of_ne (fun e => hp (congrArg some e)) ds
  | cons c cs =>
    by_cases hc : c = '.'
    · subst hc; simp only [List.cons_append, fractionWidth, runWidth_append cs hdigit]
    · rw [List.cons_append, fractionWidth_of_ne hc, fractionWidth_of_ne hc]

theorem magnitudeWidth_append_of_head (cs : List Char) {ds : List Char}
    (hdigit : ds.head?.any Char.isDigit = false) (hp : ds.head? ≠ some '.') :
    magnitudeWidth (cs ++ ds) = magnitudeWidth cs := by
  simp only [magnitudeWidth]
  rw [runWidth_append cs hdigit, List.drop_append_of_le_length (runWidth_le _ _),
    fractionWidth_append_of_head _ hdigit hp]

theorem magnitudeWidth_append (cs : List Char) {ds : List Char} (hd : Breaks ds) :
    magnitudeWidth (cs ++ ds) = magnitudeWidth cs :=
  magnitudeWidth_append_of_head cs (hd.head?_any (by decide)) (hd.head?_ne (by decide))

theorem magnitudeWidth_digits {cs : List Char} (h : cs.all Char.isDigit = true) :
    magnitudeWidth cs = cs.length := by
  have hw := runWidth_of_all h
  simp only [magnitudeWidth]
  rw [hw, List.drop_length]; rfl

theorem magnitudeWidth_decimal {cs ds : List Char} (hc : cs.all Char.isDigit = true)
    (hd : ds.all Char.isDigit = true) (hn : ds ≠ []) :
    magnitudeWidth (cs ++ '.' :: ds) = (cs ++ '.' :: ds).length := by
  have h0 : runWidth Char.isDigit ('.' :: ds) = 0 := rfl
  have hl : ds.length ≠ 0 := fun e => hn (List.eq_nil_of_length_eq_zero e)
  simp only [magnitudeWidth]
  rw [runWidth_append_of_all hc, h0, Nat.add_zero, List.drop_left, fractionWidth,
    runWidth_of_all hd, if_neg hl, List.length_append, List.length_cons]

/-! ## Kinds of characters -/

theorem ne_of_kind {p : Char → Bool} {c d : Char} (hc : p c = true) (hd : p d = false) : c ≠ d :=
  fun e => by rw [e, hd] at hc; cases hc

theorem not_mem_of_kind {p : Char → Bool} {c : Char} {ds : List Char} (hc : p c = true)
    (hds : ds.any p = false) : c ∉ ds :=
  fun hmem => List.any_eq_false.1 hds c hmem hc

theorem isWordStart_of_isDigit {c : Char} (h : c.isDigit = true) : isWordStart c = false := by
  have hne : c ≠ '_' := ne_of_kind h rfl
  simp only [Char.isDigit, Bool.and_eq_true, decide_eq_true_eq] at h
  have hlt (n : UInt32) (hn : 57 < n) : ¬ n ≤ c.val :=
    UInt32.not_le.2 (UInt32.lt_of_le_of_lt h.2 hn)
  have hascii : c.val < 128 := UInt32.lt_of_le_of_lt h.2 (by decide)
  have halpha : c.isAlpha = false := by
    have hupper : c.isUpper = false := decide_eq_false fun h => hlt _ (by decide) h.1
    have hlower : c.isLower = false := by
      show (decide (c.val ≥ 'a'.val) && decide (c.val ≤ 'z'.val)) = false
      rw [decide_eq_false (hlt _ (by decide)), Bool.false_and]
    show (c.isUpper || c.isLower) = false
    rw [hupper, hlower, Bool.or_false]
  simp only [isWordStart, Text.isLetter, if_pos hascii, halpha, Bool.false_or, beq_eq_false_iff_ne]
  exact hne

end Eligibility
