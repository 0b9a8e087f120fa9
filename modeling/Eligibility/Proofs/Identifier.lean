import Eligibility.Token.Stream

/-!
# Identifiers

* `isName`: text that starts a word and goes on as one, dotted segments included;
* `tailWidth_append_of_full`: such text in front of other text;
* `IsLexeme`, **`isLexeme_lexeme`**: what the token at the front of a text may be;
* `IsIdentifier`: text that is a single identifier token;
* **`IsIdentifier.isName`**, **`IsIdentifier.upper_ne`**: it is a name, and it is no keyword in any
  letter case.
-/

namespace Eligibility

open Text TokenKind

/-! ## Names -/

/-- A name of one or more segments. -/
def isName : List Char → Bool
  | [] => false
  | c :: cs => isWordStart c && tailWidth cs == cs.length

theorem tailWidth_le (cs : List Char) : tailWidth cs ≤ cs.length := by
  induction cs with
  | nil => exact Nat.le_refl _
  | cons c cs ih => rw [tailWidth]; split <;> simp only [List.length_cons] <;> omega

theorem tailWidth_cons {c : Char} (h : isWordChar c = true) (cs : List Char) :
    tailWidth (c :: cs) = tailWidth cs + 1 := by
  rw [tailWidth, h, Bool.true_or, if_pos rfl]

theorem tailWidth_dot {c : Char} (h : isWordChar c = true) (cs : List Char) :
    tailWidth ('.' :: c :: cs) = tailWidth (c :: cs) + 1 := by
  rw [tailWidth, List.head?_cons, Option.any_some, h]; rfl

theorem tailWidth_append_of_full {cs : List Char} (h : tailWidth cs = cs.length)
    (ds : List Char) : tailWidth (cs ++ ds) = cs.length + tailWidth ds := by
  induction cs with
  | nil => simp
  | cons c cs ih =>
    rw [tailWidth] at h
    split at h
    · rename_i hc
      have hc' : (isWordChar c || c == '.' && (cs ++ ds).head?.any isWordChar) = true := by
        cases cs with
        | nil =>
          simp only [List.head?_nil, Option.any_none, Bool.and_false, Bool.or_false] at hc
          rw [hc, Bool.true_or]
        | cons d cs => exact hc
      rw [List.cons_append, tailWidth, if_pos hc', ih (Nat.succ.inj h), List.length_cons]
      omega
    · cases h

theorem tailWidth_of_all {cs : List Char} (h : cs.all isWordChar = true) :
    tailWidth cs = cs.length := by
  induction cs with
  | nil => rfl
  | cons c cs ih =>
    rw [List.all_cons, Bool.and_eq_true] at h
    rw [tailWidth_cons h.1, ih h.2, List.length_cons]

theorem tailWidth_eq_runWidth {cs : List Char} (h : '.' ∉ cs) :
    tailWidth cs = runWidth isWordChar cs := by
  induction cs with
  | nil => rfl
  | cons c cs ih =>
    rw [List.mem_cons, not_or] at h
    have hc : (c == '.') = false := beq_false_of_ne (Ne.symm h.1)
    rw [tailWidth, hc, Bool.false_and, Bool.or_false, runWidth, List.takeWhile_cons]
    split
    · rw [ih h.2]; rfl
    · rfl

theorem wordWidth_eq_runWidth {c : Char} (h : isWordStart c = true) (cs : List Char) :
    wordWidth (c :: cs) = runWidth isWordChar (c :: cs) := by
  rw [wordWidth, if_pos h, runWidth, runWidth,
    List.takeWhile_cons_of_pos (isWordChar_of_isWordStart h), List.length_cons]

theorem isName_cons {c : Char} {cs : List Char} (h : isName (c :: cs) = true) :
    isWordStart c = true ∧ tailWidth cs = cs.length := by
  rw [isName, Bool.and_eq_true, beq_iff_eq] at h
  exact h

theorem tailWidth_of_isName {cs : List Char} (h : isName cs = true) : tailWidth cs = cs.length := by
  cases cs with
  | nil => rfl
  | cons c cs =>
    obtain ⟨h1, h2⟩ := isName_cons h
    rw [tailWidth_cons (isWordChar_of_isWordStart h1), h2, List.length_cons]

theorem isName_dotted {cs : List Char} (h : isName cs = true) {d : Char} {ds : List Char}
    (hd : isWordChar d = true) (hf : tailWidth (d :: ds) = (d :: ds).length) :
    isName (cs ++ '.' :: d :: ds) = true := by
  cases cs with
  | nil => cases h
  | cons c cs =>
    obtain ⟨h1, h2⟩ := isName_cons h
    rw [List.cons_append, isName, h1, tailWidth_append_of_full h2, tailWidth_dot hd, hf,
      Bool.true_and, beq_iff_eq, List.length_append]
    rfl

/-! ## Identifiers -/

/-- The text is a single identifier token. -/
def IsIdentifier (s : String) : Prop :=
  (tokenize s).tokens.map (fun t => (t.kind, t.text)) = [(.identifier, s)]

instance (s : String) : Decidable (IsIdentifier s) := inferInstanceAs (Decidable (_ = _))

theorem keyword?_eq_none {s : String} (h : (keyword? s).getD .identifier = .identifier) :
    keyword? s = none := by
  cases hk : keyword? s with
  | none => rfl
  | some k =>
    rw [hk, Option.getD_some] at h; subst h
    rw [keyword?, List.lookup_eq_some_iff] at hk
    obtain ⟨l, r, hl, -⟩ := hk
    have hm : (upper s, TokenKind.identifier) ∈ keywords := by rw [hl]; simp
    have : ∀ p ∈ keywords, p.2 ≠ TokenKind.identifier := by decide
    exact absurd rfl (this _ hm)

theorem phrase?_kind {s : String} {cs : List Char} {l : Lexeme} (h : phrase? s cs = some l) :
    l.kind ∈ phrases.map (·.2.2) := by
  obtain ⟨⟨head, tail, kind⟩, hm, hl⟩ := List.exists_of_findSome?_eq_some h
  simp only [Option.ite_none_right_eq_some, Option.map_eq_some_iff] at hl
  obtain ⟨-, n, -, rfl⟩ := hl
  exact List.mem_map_of_mem (f := fun p => p.2.2) hm

theorem symbolLexeme_kind (cs : List Char) :
    (symbolLexeme cs).kind ∈ .unknown :: symbols.map (·.2) := by
  unfold symbolLexeme
  split
  · rename_i hs
    exact List.mem_cons_of_mem _ (List.mem_map_of_mem (f := (·.2)) (List.mem_of_find?_eq_some hs))
  · exact List.mem_cons_self

/-- What may be the token at the front of a text. -/
inductive IsLexeme (c : Char) (cs : List Char) : Lexeme → Prop
  | newline (hc : c = '\n') : IsLexeme c cs (.slice .newline 1 (c :: cs))
  | string (hc : c = '"' ∨ c = '\'') :
      IsLexeme c cs (.slice .string (quotedWidth c false cs + 1) (c :: cs))
  | number (hc : c.isDigit = true) :
      IsLexeme c cs (.slice .number (magnitudeWidth (c :: cs)) (c :: cs))
  | negative (hc : c = '-') (hcs : cs.head?.any Char.isDigit = true) :
      IsLexeme c cs (.slice .number (magnitudeWidth cs + 1) (c :: cs))
  | word (hc : isWordStart c = true) : IsLexeme c cs (wordLexeme (c :: cs))
  | symbol (hc : isWordStart c = false) (hq : c ≠ '"' ∧ c ≠ '\'') :
      IsLexeme c cs (symbolLexeme (c :: cs))

theorem isLexeme_lexeme (c : Char) (cs : List Char) : IsLexeme c cs (lexeme (c :: cs)) := by
  simp only [lexeme]
  split
  · rename_i hc
    exact .newline hc
  split
  · rename_i hc
    exact .string hc
  rename_i hq
  split
  · rename_i hc
    exact .number hc
  split
  · rename_i hc
    exact .negative hc.1 hc.2
  split
  · rename_i hc
    exact .word hc
  · rename_i hc
    exact .symbol (Bool.eq_false_iff.2 hc) (not_or.1 hq)

/-- An identifier takes a whole dotted name. One of a single segment is no keyword. -/
theorem lexeme_identifier {cs : List Char} (h : (lexeme cs).kind = .identifier) :
    ∃ c rest, cs = c :: rest ∧ isWordStart c = true ∧
      lexeme cs = .slice .identifier (tailWidth cs) cs ∧
      (tailWidth cs = wordWidth cs → keyword? (.ofList (cs.take (wordWidth cs))) = none) := by
  cases cs with
  | nil => cases h
  | cons c rest =>
    refine ⟨c, rest, rfl, ?_⟩
    have hlexeme := isLexeme_lexeme c rest
    generalize lexeme (c :: rest) = l at h hlexeme ⊢
    cases hlexeme with
    | newline | string | number | negative => cases h
    | word hc =>
      refine ⟨hc, ?_⟩
      simp only [wordLexeme] at h ⊢
      split at h
      · rename_i hd; rw [if_pos hd]
        exact ⟨rfl, fun e => absurd e hd⟩
      · rename_i hd; rw [if_neg hd]
        rw [ne_eq, Decidable.not_not] at hd
        cases hp : phrase? (.ofList ((c :: rest).take (wordWidth (c :: rest)))) (c :: rest) with
        | some l =>
          rw [hp, Option.getD_some] at h
          exact absurd (phrase?_kind hp) (by rw [h]; decide)
        | none =>
          simp only [hp, Option.getD_none, Lexeme.slice] at h
          have hk := keyword?_eq_none h
          rw [Option.getD_none, hk, hd]
          exact ⟨rfl, fun _ => rfl⟩
    | symbol =>
      have hall : ∀ k ∈ TokenKind.unknown :: symbols.map (·.2), k ≠ .identifier := by decide
      exact absurd h (hall _ (symbolLexeme_kind _))

theorem IsIdentifier.lexeme {s : String} (h : IsIdentifier s) :
    (lexeme s.toList).kind = .identifier ∧ tailWidth s.toList = s.toList.length := by
  rw [IsIdentifier, tokenize, tokensFrom] at h
  split at h
  · cases h
  · simp only [List.map_cons, List.cons.injEq, Prod.mk.injEq] at h
    obtain ⟨⟨hk, ht⟩, -⟩ := h
    obtain ⟨c, rest, -, -, hl, -⟩ := lexeme_identifier hk
    rw [hl] at ht
    -- the token takes as many characters as the whole text has
    have hlen := congrArg (fun t => t.toList.length) ht
    simp only [Lexeme.slice, String.toList_ofList, List.length_take, List.length_drop] at hlen
    have hpos : 0 < s.toList.length := by
      rw [List.length_pos_iff]; intro e; rw [e] at hk; cases hk
    have hg : gapWidth false s.toList = 0 := by omega
    rw [hg, List.drop_zero] at hk hlen
    have := tailWidth_le s.toList
    exact ⟨hk, by omega⟩

theorem IsIdentifier.isName {s : String} (h : IsIdentifier s) : isName s.toList = true := by
  obtain ⟨hk, hw⟩ := h.lexeme
  obtain ⟨c, rest, hs, hc, -⟩ := lexeme_identifier hk
  rw [hs] at hw ⊢
  rw [tailWidth_cons (isWordChar_of_isWordStart hc), List.length_cons] at hw
  rw [Eligibility.isName, hc, Nat.succ.inj hw, beq_self_eq_true]; rfl

theorem upper_ne_of_dot {s w : String} (h : '.' ∈ s.toList) (hw : '.' ∉ w.toList) :
    upper s ≠ w := by
  intro e
  refine hw ?_
  rw [← e, upper, String.toList_ofList]
  exact List.mem_map_of_mem (f := Char.toUpper) h

theorem IsIdentifier.keyword?_eq_none {s : String} (h : IsIdentifier s) (hd : '.' ∉ s.toList) :
    keyword? s = none := by
  obtain ⟨hk, hw⟩ := h.lexeme
  obtain ⟨c, rest, hs, hc, -, hn⟩ := lexeme_identifier hk
  have hl : wordWidth s.toList = s.toList.length := by
    rw [← hw, tailWidth_eq_runWidth hd, hs, wordWidth_eq_runWidth hc]
  have := hn (by rw [hw, hl])
  rwa [hl, List.take_length, String.ofList_toList] at this

/-- An identifier is no keyword, in any letter case. -/
theorem IsIdentifier.upper_ne {s w : String} (h : IsIdentifier s)
    (hw : w ∈ keywords.map (·.1)) : upper s ≠ w := by
  by_cases hd : '.' ∈ s.toList
  · refine upper_ne_of_dot hd ?_
    have : ∀ w ∈ keywords.map (·.1), '.' ∉ w.toList := by decide
    exact this w hw
  · intro e
    have hn := h.keyword?_eq_none hd
    rw [keyword?, e] at hn
    have : ∀ w ∈ keywords.map (·.1), (keywords.lookup w).isSome = true := by decide
    have := this w hw
    rw [hn] at this; cases this

end Eligibility
