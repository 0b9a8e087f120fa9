import Mathlib.Data.List.Forall2
import Eligibility.Proofs.Token.Layout

/-!
# Letter case

No scanner sees the case of an ASCII letter, so the tokens of a text in upper case are those of the
text, with their texts in upper case.

* `Caseless`, `toUpper_eq_iff`, `caseless_of_isAlpha`: tests of characters that do not see the case;
* `gapWidth_upper`, `wordWidth_upper`, `quotedWidth_upper`, …: the scanners;
* **`lexeme_upper`**: the token at the front;
* `TokenKind.isKeyword`, `Recased`: texts that differ in the case of keywords;
* `Token.Recased`, **`tokensFrom_recased`**: their tokens.
-/

namespace Eligibility

open Text TokenKind

/-! ## Characters -/

/-- The test does not see the case of ASCII letters. -/
def Caseless {α : Type} (p : Char → α) : Prop := ∀ c : Char, p c.toUpper = p c

theorem toUpper_of_not_ascii {c : Char} (h : ¬ c.toNat < 128) : c.toUpper = c := by
  refine dif_neg fun hlower => h ?_
  exact Nat.lt_of_le_of_lt (UInt32.le_iff_toNat_le.1 hlower.2) (by decide)

theorem caseless_of_ascii {α : Type} {p : Char → α}
    (h : ∀ n < 128, p (Char.ofNat n).toUpper = p (Char.ofNat n)) : Caseless p := by
  intro c
  by_cases hc : c.toNat < 128
  · rw [← Char.ofNat_toNat c]
    exact h _ hc
  · rw [toUpper_of_not_ascii hc]

theorem toUpper_eq_or (c : Char) :
    c.toUpper = c ∨ c.isAlpha = true ∧ c.toUpper.isAlpha = true := by
  by_cases hc : c.toNat < 128
  · have hascii : ∀ n < 128, (Char.ofNat n).toUpper = Char.ofNat n ∨
        (Char.ofNat n).isAlpha = true ∧ (Char.ofNat n).toUpper.isAlpha = true := by decide +kernel
    rw [← Char.ofNat_toNat c]
    exact hascii _ hc
  · exact .inl (toUpper_of_not_ascii hc)

theorem toUpper_eq_iff {c d : Char} (hd : d.isAlpha = false) : c.toUpper = d ↔ c = d := by
  rcases toUpper_eq_or c with h | ⟨hc, hu⟩
  · rw [h]
  · constructor
    · rintro rfl
      exact nomatch hd.symm.trans hu
    · rintro rfl
      exact nomatch hd.symm.trans hc

theorem beq_upper {c d : Char} (hd : d.isAlpha = false) : (c.toUpper == d) = (c == d) := by
  rw [Bool.eq_iff_iff, beq_iff_eq, beq_iff_eq, toUpper_eq_iff hd]

theorem caseless_beq {d : Char} (hd : d.isAlpha = false) : Caseless (· == d) :=
  fun _ => beq_upper hd

theorem Caseless.or {p q : Char → Bool} (hp : Caseless p) (hq : Caseless q) :
    Caseless fun c => p c || q c :=
  fun c => congrArg₂ Bool.or (hp c) (hq c)

theorem caseless_of_isAlpha {α : Type} {p : Char → α} {a : α}
    (h : ∀ c : Char, c.isAlpha = true → p c = a) : Caseless p := by
  intro c
  rcases toUpper_eq_or c with hc | ⟨hc, hu⟩
  · rw [hc]
  · rw [h _ hc, h _ hu]

theorem isAlpha_range {c : Char} (h : c.isAlpha = true) : 65 ≤ c.toNat ∧ c.toNat ≤ 122 := by
  rcases Bool.or_eq_true_iff.1 h with h | h
  · have hupper : 'A'.val ≤ c.val ∧ c.val ≤ 'Z'.val := of_decide_eq_true h
    exact ⟨UInt32.le_iff_toNat_le.1 hupper.1,
      Nat.le_trans (UInt32.le_iff_toNat_le.1 hupper.2) (by decide)⟩
  · have hlower := Bool.and_eq_true_iff.1 h
    have ha : 'a'.val ≤ c.val := of_decide_eq_true hlower.1
    have hz : c.val ≤ 'z'.val := of_decide_eq_true hlower.2
    exact ⟨Nat.le_trans (by decide) (UInt32.le_iff_toNat_le.1 ha), UInt32.le_iff_toNat_le.1 hz⟩

theorem isAscii_of_isAlpha {c : Char} (h : c.isAlpha = true) : c.val < 128 :=
  UInt32.lt_iff_toNat_lt.2 (Nat.lt_of_le_of_lt (isAlpha_range h).2 (by decide))

theorem isDigit_of_isAlpha {c : Char} (h : c.isAlpha = true) : c.isDigit = false := by
  refine Bool.eq_false_iff.2 fun hd => ?_
  simp only [Char.isDigit, Bool.and_eq_true, decide_eq_true_eq, UInt32.le_iff_toNat_le] at hd
  exact absurd hd.2 (Nat.not_le.2 (Nat.lt_of_lt_of_le (by decide) (isAlpha_range h).1))

theorem caseless_isDigit : Caseless Char.isDigit := caseless_of_isAlpha fun _ => isDigit_of_isAlpha

theorem caseless_isLetter : Caseless isLetter :=
  caseless_of_isAlpha fun c h => by rw [isLetter, if_pos (isAscii_of_isAlpha h), h]

theorem caseless_isNumeral : Caseless isNumeral :=
  caseless_of_isAlpha fun c h => by
    rw [isNumeral, if_pos (isAscii_of_isAlpha h), isDigit_of_isAlpha h]

theorem caseless_isSpacing : Caseless isSpacing := (caseless_beq rfl).or (caseless_beq rfl)

theorem caseless_isGap : Caseless isGap := caseless_isSpacing.or (caseless_beq rfl)

theorem caseless_isWordStart : Caseless isWordStart := caseless_isLetter.or (caseless_beq rfl)

theorem caseless_isWordChar : Caseless isWordChar :=
  (caseless_isLetter.or caseless_isNumeral).or (caseless_beq rfl)

theorem caseless_isBlank : Caseless isBlank := caseless_of_ascii (by decide +kernel)

theorem caseless_toUpper : Caseless Char.toUpper := caseless_of_ascii (by decide +kernel)

theorem upper_upper (s : String) : upper (upper s) = upper s := by
  rw [upper, upper, String.toList_ofList, List.map_map]
  exact congrArg String.ofList (List.map_congr_left fun c _ => caseless_toUpper c)

theorem upper_ofList (cs : List Char) : upper (.ofList cs) = .ofList (cs.map Char.toUpper) := by
  rw [upper, String.toList_ofList]

theorem length_upper (s : String) : (upper s).length = s.length := by
  rw [upper, String.length_ofList, List.length_map, String.length_toList]

/-! ## Scanners -/

section Scanner

variable {p : Char → Bool} (cs : List Char)

theorem head?_any_upper (hp : Caseless p) :
    (cs.map Char.toUpper).head?.any p = cs.head?.any p := by
  cases cs with
  | nil => rfl
  | cons c cs => exact hp c

theorem head?_beq_upper {d : Char} (hd : d.isAlpha = false) :
    ((cs.map Char.toUpper).head? == some d) = (cs.head? == some d) := by
  cases cs with
  | nil => rfl
  | cons c cs => exact beq_upper hd

theorem runWidth_upper (hp : Caseless p) : runWidth p (cs.map Char.toUpper) = runWidth p cs := by
  have hsame : p ∘ Char.toUpper = p := funext hp
  rw [runWidth, List.takeWhile_map, List.length_map, hsame, runWidth]

theorem closesLine_upper : closesLine (cs.map Char.toUpper) = closesLine cs := by
  induction cs with
  | nil => rfl
  | cons c cs ih =>
    have hhead := head?_beq_upper cs (d := '\n') rfl
    rw [List.map_cons, closesLine, closesLine, ih, hhead]
    simp only [toUpper_eq_iff (show Char.isAlpha '\n' = false from rfl),
      toUpper_eq_iff (show Char.isAlpha '\r' = false from rfl)]

theorem gapWidth_upper (b : Bool) : gapWidth b (cs.map Char.toUpper) = gapWidth b cs := by
  induction cs generalizing b with
  | nil => rfl
  | cons c cs ih =>
    rw [List.map_cons, gapWidth, gapWidth, ih, ih, closesLine_upper, caseless_isGap]
    simp only [bne, beq_upper (show Char.isAlpha '\n' = false from rfl),
      beq_upper (show Char.isAlpha '\r' = false from rfl),
      beq_upper (show Char.isAlpha '#' = false from rfl)]

theorem wordWidth_upper : wordWidth (cs.map Char.toUpper) = wordWidth cs := by
  cases cs with
  | nil => rfl
  | cons c cs =>
    rw [List.map_cons, wordWidth, wordWidth, caseless_isWordStart,
      runWidth_upper cs caseless_isWordChar]

theorem tailWidth_upper : tailWidth (cs.map Char.toUpper) = tailWidth cs := by
  induction cs with
  | nil => rfl
  | cons c cs ih =>
    rw [List.map_cons, tailWidth, tailWidth, ih, caseless_isWordChar,
      head?_any_upper cs caseless_isWordChar, beq_upper rfl]

theorem fractionWidth_upper : fractionWidth (cs.map Char.toUpper) = fractionWidth cs := by
  cases cs with
  | nil => rfl
  | cons c cs =>
    by_cases hc : c = '.'
    · subst hc
      exact congrArg (fun n => if n = 0 then 0 else n + 1) (runWidth_upper cs caseless_isDigit)
    · rw [List.map_cons, fractionWidth_of_ne hc, fractionWidth_of_ne (mt (toUpper_eq_iff rfl).1 hc)]

theorem magnitudeWidth_upper : magnitudeWidth (cs.map Char.toUpper) = magnitudeWidth cs := by
  rw [magnitudeWidth, magnitudeWidth, runWidth_upper cs caseless_isDigit, ← List.map_drop,
    fractionWidth_upper]

theorem quotedWidth_upper {quote : Char} (hq : quote.isAlpha = false) (escaped : Bool) :
    quotedWidth quote escaped (cs.map Char.toUpper) = quotedWidth quote escaped cs := by
  induction cs generalizing escaped with
  | nil => rfl
  | cons c cs ih =>
    rw [List.map_cons, quotedWidth, quotedWidth, ih, ih, head?_beq_upper cs hq, beq_upper rfl]
    simp only [toUpper_eq_iff (show Char.isAlpha '\n' = false from rfl), toUpper_eq_iff hq]

theorem followWidth?_upper (ws : List String) :
    followWidth? ws (cs.map Char.toUpper) = followWidth? ws cs := by
  induction ws generalizing cs with
  | nil => rfl
  | cons w ws ih =>
    rw [followWidth?, followWidth?, runWidth_upper cs caseless_isSpacing]
    simp only [← List.map_drop, ← List.map_take, wordWidth_upper, ih, ← upper_ofList, upper_upper]

end Scanner

/-! ## The token at the front -/

/-- The lexeme with its text in upper case. -/
def Lexeme.upper (l : Lexeme) : Lexeme := { l with text := Text.upper l.text }

section Lexeme

variable (cs : List Char)

theorem slice_upper (k : TokenKind) (n : Nat) :
    Lexeme.slice k n (cs.map Char.toUpper) = (Lexeme.slice k n cs).upper := by
  rw [Lexeme.slice, Lexeme.slice, Lexeme.upper, upper_ofList, List.map_take]

theorem isPrefixOf_upper {s : List Char} (hs : ∀ c ∈ s, c.isAlpha = false) :
    s.isPrefixOf (cs.map Char.toUpper) = s.isPrefixOf cs := by
  induction s generalizing cs with
  | nil => rfl
  | cons d s ih =>
    obtain ⟨hd, hs⟩ := List.forall_mem_cons.1 hs
    cases cs with
    | nil => rfl
    | cons c cs =>
      rw [List.map_cons, List.isPrefixOf, List.isPrefixOf, ih cs hs, Bool.beq_comm, beq_upper hd,
        Bool.beq_comm]

theorem symbolLexeme_upper : symbolLexeme (cs.map Char.toUpper) = (symbolLexeme cs).upper := by
  have hall : (symbols.all fun s => s.1.all fun c => c.isAlpha == false) = true := by decide
  have hsymbols : ∀ s ∈ symbols, ∀ c ∈ s.1, c.isAlpha = false := fun s hs c hc =>
    beq_iff_eq.1 (List.all_eq_true.1 (List.all_eq_true.1 hall s hs) c hc)
  have hfind : (symbols.find? fun s => s.1.isPrefixOf (cs.map Char.toUpper)) =
      symbols.find? fun s => s.1.isPrefixOf cs := by
    rw [← List.head?_filter, ← List.head?_filter,
      List.filter_congr fun s hs => isPrefixOf_upper cs (hsymbols s hs)]
  rw [symbolLexeme, symbolLexeme, hfind]
  cases symbols.find? fun s => s.1.isPrefixOf cs with
  | none => exact slice_upper cs _ _
  | some s => exact slice_upper cs _ _

theorem findSome?_eq_map {α β γ : Type} {l : List α} {f : α → Option β} {g : α → Option γ}
    {h : β → γ} (hg : ∀ a ∈ l, g a = (f a).map h) : l.findSome? g = (l.findSome? f).map h := by
  induction l with
  | nil => rfl
  | cons a l ih =>
    obtain ⟨ha, hl⟩ := List.forall_mem_cons.1 hg
    rw [List.findSome?_cons, List.findSome?_cons, ha, ih hl]
    cases f a <;> rfl

theorem phrase?_upper (first : String) :
    phrase? (upper first) (cs.map Char.toUpper) = (phrase? first cs).map Lexeme.upper := by
  have hphrases : ∀ p ∈ phrases, upper (" ".intercalate (p.1 :: p.2.1)) =
      " ".intercalate (p.1 :: p.2.1) := by decide +kernel
  refine findSome?_eq_map fun p hp => ?_
  obtain ⟨head, tail, kind⟩ := p
  dsimp only
  rw [upper_upper, length_upper, ← List.map_drop, followWidth?_upper]
  split
  · rw [Option.map_map]
    refine congrArg (fun f => Option.map f _) (funext fun n => ?_)
    show Lexeme.mk _ _ _ = Lexeme.mk _ _ _
    rw [hphrases _ hp]
  · rfl

theorem wordLexeme_upper : wordLexeme (cs.map Char.toUpper) = (wordLexeme cs).upper := by
  rw [wordLexeme, wordLexeme, wordWidth_upper, tailWidth_upper, ← List.map_take, ← upper_ofList,
    phrase?_upper, slice_upper, slice_upper, keyword?, keyword?, upper_upper]
  split
  · rfl
  · cases phrase? (.ofList (cs.take (wordWidth cs))) cs <;> rfl

/-- **The token at the front of a text in upper case** is that of the text. -/
theorem lexeme_upper : lexeme (cs.map Char.toUpper) = (lexeme cs).upper := by
  cases cs with
  | nil => rfl
  | cons c cs =>
    have hslice := slice_upper (c :: cs)
    have hword := wordLexeme_upper (c :: cs)
    have hsymbol := symbolLexeme_upper (c :: cs)
    have hmagnitude := magnitudeWidth_upper (c :: cs)
    rw [List.map_cons] at *
    rw [lexeme, lexeme]
    simp only [toUpper_eq_iff (show Char.isAlpha '\n' = false from rfl),
      toUpper_eq_iff (show Char.isAlpha '"' = false from rfl),
      toUpper_eq_iff (show Char.isAlpha '\'' = false from rfl),
      toUpper_eq_iff (show Char.isAlpha '-' = false from rfl), caseless_isDigit c,
      caseless_isWordStart c, head?_any_upper cs caseless_isDigit, hslice, hword, hsymbol,
      hmagnitude, magnitudeWidth_upper cs]
    split
    · rfl
    split
    · rename_i hq
      have hquote : c.isAlpha = false := by rcases hq with rfl | rfl <;> rfl
      rw [(toUpper_eq_iff hquote).2 rfl, quotedWidth_upper cs hquote]
    split
    · rfl
    split
    · rfl
    split <;> rfl

end Lexeme

/-! ## Keywords in another case -/

/-- The kinds of keywords, of one word or of several. -/
def TokenKind.isKeyword (k : TokenKind) : Bool :=
  k ∈ keywords.map (·.2) ++ phrases.map (·.2.2)

/-- The second text is the first one with the letters of its keywords in any case. The first text is
cut up into gaps and tokens as its lexemes are. -/
inductive Recased : List Char → List Char → Prop
  | last {gap : List Char} (hgap : gapWidth false gap = gap.length) : Recased gap gap
  | token {gap word word' rest rest' : List Char}
      (hgap : gapWidth false (gap ++ (word ++ rest)) = gap.length) (hne : word ≠ [])
      (hwidth : (lexeme (word ++ rest)).width = word.length)
      (hword : word'.map Char.toUpper = word.map Char.toUpper)
      (hkeep : (lexeme (word ++ rest)).kind.isKeyword = false → word' = word)
      (h : Recased rest rest') : Recased (gap ++ (word ++ rest)) (gap ++ (word' ++ rest'))

/-- The same token, but for the case of a keyword. -/
structure Token.Recased (t u : Token) : Prop where
  kind : t.kind = u.kind
  position : t.position = u.position
  upper : Text.upper t.text = Text.upper u.text
  text : t.kind.isKeyword = false → t.text = u.text

section Recased

variable {cs cs' : List Char}

theorem Recased.upper (h : Recased cs cs') : cs'.map Char.toUpper = cs.map Char.toUpper := by
  induction h with
  | last => rfl
  | token _ _ _ hword _ _ ih => simp only [List.map_append, hword, ih]

/-- The tokens at the fronts of two texts that differ in the case of letters. -/
theorem lexeme_of_upper (h : cs'.map Char.toUpper = cs.map Char.toUpper) :
    (lexeme cs').kind = (lexeme cs).kind ∧ (lexeme cs').width = (lexeme cs).width ∧
      upper (lexeme cs').text = upper (lexeme cs).text := by
  have hl : (lexeme cs').upper = (lexeme cs).upper := by
    rw [← lexeme_upper, ← lexeme_upper, h]
  obtain ⟨hkind, htext, hwidth⟩ := Lexeme.mk.inj hl
  exact ⟨hkind, hwidth, htext⟩

/-- The text of a token that is no keyword is the characters that it takes. -/
theorem lexeme_text (hne : cs ≠ []) (hk : (lexeme cs).kind.isKeyword = false) :
    (lexeme cs).text = .ofList (cs.take (lexeme cs).width) := by
  obtain ⟨-, -, hspells, -⟩ := lexeme_range [] hne .first
  have hphrase : (lexeme cs).kind ∉ phrases.map (·.2.2) := by
    intro hmem
    rw [isKeyword, decide_eq_false_iff_not] at hk
    exact hk (List.mem_append_right _ hmem)
  exact (if_neg hphrase).mp hspells

/-- **Texts that differ in the case of keywords have the same tokens** at the same places. -/
theorem tokensFrom_recased (h : Recased cs cs') (p : Position) :
    List.Forall₂ Token.Recased (tokensFrom p cs).tokens (tokensFrom p cs').tokens ∧
      (tokensFrom p cs).finish = (tokensFrom p cs').finish := by
  induction h generalizing p with
  | @last gap hgap =>
    rw [tokensFrom_of_nil (List.drop_eq_nil_iff.2 (Nat.le_of_eq hgap.symm))]
    exact ⟨.nil, rfl⟩
  | @token gap word word' rest rest' hgap hne hwidth hword hkeep hrest ih =>
    have hupper : (word' ++ rest').map Char.toUpper = (word ++ rest).map Char.toUpper := by
      rw [List.map_append, hword, hrest.upper, List.map_append]
    have hlen : word'.length = word.length := by simpa using congrArg List.length hword
    -- the gap and the token at the front are as wide as before
    have hgap' : gapWidth false (gap ++ (word' ++ rest')) = gap.length := by
      rw [← hgap, ← gapWidth_upper, List.map_append, hupper, ← List.map_append, gapWidth_upper]
    obtain ⟨hkind, hwidth', htext⟩ := lexeme_of_upper hupper
    have hne' : word' ≠ [] := by
      rintro rfl
      exact hne (List.length_eq_zero_iff.1 hlen.symm)
    have hsome {ws : List Char} (vs : List Char) (h : ws ≠ []) : ws ++ vs ≠ [] :=
      List.append_ne_nil_of_left_ne_nil h vs
    rw [tokensFrom_of_ne_nil (by rw [hgap, List.drop_left]; exact hsome rest hne),
      tokensFrom_of_ne_nil (by rw [hgap', List.drop_left]; exact hsome rest' hne')]
    have hafter (p : Position) :
        p.after (lexeme (word' ++ rest')) = p.after (lexeme (word ++ rest)) := by
      rw [Position.after, Position.after, hkind, hwidth']
    simp only [hgap, hgap', List.drop_left, hafter, hwidth', hwidth]
    rw [List.drop_left' hlen]
    obtain ⟨htokens, hfinish⟩ := ih ((p.right gap.length).after (lexeme (word ++ rest)))
    refine ⟨.cons ⟨hkind.symm, rfl, htext.symm, fun hk => ?_⟩ htokens, hfinish⟩
    show (lexeme (word ++ rest)).text = (lexeme (word' ++ rest')).text
    rw [lexeme_text (hsome rest hne) hk, lexeme_text (hsome rest' hne') (hkind ▸ hk), hwidth',
      hwidth, List.take_left, List.take_left' hlen, hkeep hk]

end Recased

end Eligibility
