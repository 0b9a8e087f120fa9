import Eligibility.Proofs.Script.Scan
import Eligibility.Proofs.Token.Zone

/-!
# Dotted names

A name of several segments is one identifier, unless a keyword of several words takes its first
segment as the last of its words.

* `Reaches`, **`reaches_or_inside`**: at a place outside strings and comments a token starts, or
  the place is inside the range of a token;
* `goesOn`, `IsDotted`: names of several segments, and text that would continue them;
* `lexeme_inside`: the tokens that a name may start inside of;
* `Takes`, **`tokenize_dotted`**: the token that a dotted name becomes;
* `inStock_taken_apart`: a dotted name that is cut after its first segment.
-/

namespace Eligibility

open Text TokenKind

variable {before front back cs : List Char}

/-! ## Places between tokens -/

theorem exists_append_of_le_length {n : Nat} (h : n ≤ cs.length) :
    ∃ front back, cs = front ++ back ∧ front.length = n :=
  ⟨cs.take n, cs.drop n, (List.take_append_drop n cs).symm,
    by rw [List.length_take, Nat.min_eq_left h]⟩

/-- The tokens of a text are some that start in its front, and then those of the rest. -/
def Reaches (before front back : List Char) : Prop :=
  ∃ ts, (∀ t ∈ ts, t.position.Before (placeAfter (before ++ front))) ∧
    (tokensFrom (placeAfter before) (front ++ back)).tokens =
      ts ++ (tokensFrom (placeAfter (before ++ front)) back).tokens

theorem Position.Before.append {p : Position} (h : p.Before (placeAfter before))
    (ds : List Char) : p.Before (placeAfter (before ++ ds)) := by
  by_cases hds : ds = []
  · rwa [hds, List.append_nil]
  · exact h.trans (placeAfter_before before hds)

theorem Reaches.trans {mid : List Char} (hfront : Reaches before front (mid ++ back))
    (hmid : Reaches (before ++ front) mid back) : Reaches before (front ++ mid) back := by
  obtain ⟨ts, hts, hfront⟩ := hfront
  obtain ⟨us, hus, hmid⟩ := hmid
  refine ⟨ts ++ us, fun t ht => ?_, ?_⟩
  · rw [← List.append_assoc]
    rcases List.mem_append.1 ht with ht | ht
    · exact (hts t ht).append mid
    · exact hus t ht
  · rw [List.append_assoc, hfront, hmid, List.append_assoc, List.append_assoc]

theorem tokensFrom_lexeme (before : List Char) (hne : cs ≠ []) (hgap : gapWidth false cs = 0) :
    (tokensFrom (placeAfter before) cs).tokens =
      ⟨(lexeme cs).kind, (lexeme cs).text, placeAfter before⟩ ::
        (tokensFrom (placeAfter (before ++ cs.take (lexeme cs).width))
          (cs.drop (lexeme cs).width)).tokens := by
  obtain ⟨-, -, -, hafter⟩ := lexeme_range before hne (placeAfter before)
  rw [tokensFrom_of_ne_nil (by rwa [hgap]), hgap, ← hafter]
  rfl

theorem reaches_gap (before : List Char) (hgap : gapWidth false (front ++ back) = front.length)
    (hback : gapWidth false back = 0) : Reaches before front back := by
  have hline : '\n' ∉ front := by
    have := (gap_gapWidth (front ++ back)).newline_notMem
    rwa [hgap, List.take_left] at this
  refine ⟨[], nofun, ?_⟩
  rw [placeAfter_right before hline]
  by_cases hne : back = []
  · rw [tokensFrom_of_nil (by rw [hgap, List.drop_left, hne]),
      tokensFrom_of_nil (by rw [hback, List.drop_zero, hne])]
    rfl
  · rw [tokensFrom_of_ne_nil (by rwa [hgap, List.drop_left]),
      tokensFrom_of_ne_nil (by rwa [hback]), hgap, hback, List.drop_left]
    rfl

theorem reaches_lexeme (before : List Char) (hne : front ≠ [])
    (hgap : gapWidth false (front ++ back) = 0)
    (hwidth : (lexeme (front ++ back)).width = front.length) : Reaches before front back := by
  let l := lexeme (front ++ back)
  refine ⟨[⟨l.kind, l.text, placeAfter before⟩], ?_, ?_⟩
  · rw [List.forall_mem_singleton]
    exact placeAfter_before before hne
  · rw [tokensFrom_lexeme before (by simp [hne]) hgap, hwidth, List.take_left, List.drop_left]
    rfl

/-- A token starts in front of `range`, at a place outside strings and comments as the one behind
`range` is. -/
structure Starts (before start range back : List Char) : Prop where
  ne_nil : range ≠ []
  reaches : Reaches before start (range ++ back)
  gap : gapWidth false (range ++ back) = 0
  zone : zoneAfter .code range back = .code

/-- At a place outside strings and comments a token starts, or one starts before it and not behind
a gap. -/
theorem reaches_or_starts (before : List Char) (hback : gapWidth false back = 0)
    (hzone : zoneAfter .code front back = .code) :
    Reaches before front back ∨
      ∃ start range, front = start ++ range ∧ Starts before start range back := by
  by_cases hle : front.length ≤ gapWidth false (front ++ back)
  · have hgap := gapWidth_append (openIn_false _) hzone hle
    rw [hback, Nat.add_zero] at hgap
    exact .inl (reaches_gap before hgap hback)
  rw [Nat.not_le] at hle
  generalize hn : gapWidth false (front ++ back) = n at hle
  obtain ⟨start, range, rfl, rfl⟩ := exists_append_of_le_length (Nat.le_of_lt hle)
  have hrange : range ≠ [] := by
    rintro rfl
    simp at hle
  rw [List.append_assoc] at hn
  have hstart : zoneAfter .code start (range ++ back) = .code := by
    have := zoneAfter_gap (openIn_false (start ++ (range ++ back)))
      (by rw [hn, List.drop_left]; simp [hrange])
    rwa [hn, List.take_left, List.drop_left] at this
  have hopen : gapWidth false (range ++ back) = 0 := by
    have := gapWidth_append (openIn_false _) hstart (Nat.le_of_eq hn.symm)
    omega
  rw [zoneAfter_append, hstart] at hzone
  exact .inr ⟨start, range, rfl, hrange, reaches_gap before hn hopen, hopen, hzone⟩

/-- A token that ends in front of `back` leaves less of the text in front of it. -/
theorem Starts.next {start range : List Char} (h : Starts before start range back)
    (hne : back ≠ []) (hle : (lexeme (range ++ back)).width ≤ range.length) :
    ∃ token rest, range = token ++ rest ∧ token ≠ [] ∧
      Reaches before (start ++ token) (rest ++ back) ∧ zoneAfter .code rest back = .code := by
  have hzone := h.zone
  have hreaches := h.reaches
  have hgap := h.gap
  have hpos : 0 < (lexeme (range ++ back)).width := lexeme_width_pos (by simp [hne])
  have hends : (range ++ back).drop (lexeme (range ++ back)).width ≠ [] →
      zoneAfter .code ((range ++ back).take (lexeme (range ++ back)).width)
        ((range ++ back).drop (lexeme (range ++ back)).width) = .code := by
    obtain ⟨c, cs, rfl⟩ := List.exists_cons_of_ne_nil h.ne_nil
    exact zoneAfter_lexeme hgap
  generalize hw : (lexeme (range ++ back)).width = w at *
  obtain ⟨token, rest, rfl, rfl⟩ := exists_append_of_le_length hle
  rw [List.append_assoc] at hw hends hreaches hgap
  rw [List.take_left, List.drop_left] at hends
  rw [zoneAfter_append, hends (by simp [hne])] at hzone
  have htoken : token ≠ [] := List.length_pos_iff.1 hpos
  exact ⟨token, rest, rfl, htoken, hreaches.trans (reaches_lexeme _ htoken hgap hw), hzone⟩

/-- The place before `back` is inside a token that starts in `front`. -/
def InsideToken (before front back : List Char) : Prop :=
  ∃ start range, front = start ++ range ∧ Starts before start range back ∧
    range.length < (lexeme (range ++ back)).width

theorem reaches_or_inside (before front : List Char) (hne : back ≠ [])
    (hback : gapWidth false back = 0) (hzone : zoneAfter .code front back = .code) :
    Reaches before front back ∨ InsideToken before front back := by
  -- a gap and a token at the front of the text leave less of `front`
  induction hn : front.length using Nat.strongRecOn generalizing before front with
  | _ n ih =>
    subst hn
    obtain hreaches | ⟨start, range, rfl, hstarts⟩ := reaches_or_starts before hback hzone
    · exact .inl hreaches
    by_cases hlt : range.length < (lexeme (range ++ back)).width
    · exact .inr ⟨start, range, rfl, hstarts, hlt⟩
    obtain ⟨token, rest, rfl, htoken, hreaches, hrest⟩ := hstarts.next hne (Nat.not_lt.1 hlt)
    have hless : rest.length < (start ++ (token ++ rest)).length := by
      have := List.length_pos_iff.2 htoken
      rw [List.length_append, List.length_append]
      omega
    rw [← List.append_assoc]
    obtain hreaches' | ⟨start', range, rfl, hstarts', hlt'⟩ :=
      ih _ hless (before ++ (start ++ token)) rest hrest rfl
    · exact .inl (hreaches.trans hreaches')
    · refine .inr ⟨start ++ token ++ start', range, (List.append_assoc _ _ _).symm, ?_, hlt'⟩
      rw [List.append_assoc] at hreaches
      exact ⟨hstarts'.ne_nil, hreaches.trans hstarts'.reaches, hstarts'.gap, hstarts'.zone⟩

/-! ## Names -/

/-- The text goes on with a word character, or with a dot and a word character. -/
def goesOn : List Char → Bool
  | [] => false
  | c :: cs => isWordChar c || (c == '.' && cs.head?.any isWordChar)

theorem tailWidth_of_goesOn (h : goesOn cs = false) : tailWidth cs = 0 := by
  cases cs with
  | nil => rfl
  | cons c cs => exact if_neg (Bool.eq_false_iff.1 h)

theorem goesOn_of_lt_tailWidth (h : front.length < tailWidth (front ++ back)) :
    goesOn back = true := by
  induction front with
  | nil =>
    cases hback : goesOn back with
    | true => rfl
    | false =>
      rw [List.nil_append, tailWidth_of_goesOn hback] at h
      cases h
  | cons c front ih =>
    rw [List.cons_append, tailWidth] at h
    split at h
    · exact ih (Nat.lt_of_succ_lt_succ h)
    · cases h

/-- The front of a name, read from its end. -/
theorem goesOn_reverse_of_le_tailWidth {c : Char} (hc : isWordChar c = true)
    (h : (c :: front).length ≤ tailWidth (c :: front ++ back)) :
    goesOn (c :: front).reverse = true := by
  obtain ⟨init, d, hinit⟩ : ∃ init d, c :: front = init ++ [d] :=
    ⟨_, _, (List.dropLast_concat_getLast (List.cons_ne_nil c front)).symm⟩
  rw [hinit, List.length_append, List.append_assoc] at h
  have hd : goesOn ([d] ++ back) = true := goesOn_of_lt_tailWidth h
  rw [hinit, List.reverse_append]
  rcases Bool.or_eq_true_iff.1 hd with hd | hd
  · exact Bool.or_eq_true_iff.2 (.inl hd)
  -- a dot at the end of the front stands behind a word character
  obtain ⟨rfl, -⟩ : d = '.' ∧ _ := by simpa using hd
  obtain ⟨init, e, rfl⟩ : ∃ init' e, init = init' ++ [e] := by
    refine ⟨_, _, (List.dropLast_concat_getLast (l := init) ?_).symm⟩
    rintro rfl
    rw [(List.cons.inj hinit).1] at hc
    cases hc
  rw [List.length_append, List.append_assoc] at h
  have he : goesOn ([e] ++ (['.'] ++ back)) = true := goesOn_of_lt_tailWidth (Nat.lt_of_succ_lt h)
  rcases Bool.or_eq_true_iff.1 he with he | he
  · simp [goesOn, he]
  · have hdot : isWordChar '.' = true := (Bool.and_eq_true_iff.1 he).2
    cases hdot

theorem goesOn_of_append (h : goesOn (front ++ back) = false) : goesOn front = false := by
  match front with
  | [] => rfl
  | [c] =>
    rw [List.singleton_append, goesOn, Bool.or_eq_false_iff] at h
    simp [goesOn, h.1]
  | c :: d :: front => exact h

theorem runWidth_le_tailWidth (cs : List Char) : runWidth isWordChar cs ≤ tailWidth cs := by
  induction cs with
  | nil => exact Nat.le_refl _
  | cons c cs ih =>
    rw [runWidth, List.takeWhile_cons]
    split
    · rename_i hc
      rw [tailWidth_cons hc]
      exact Nat.succ_le_succ ih
    · exact Nat.zero_le _

theorem wordWidth_le_tailWidth (cs : List Char) : wordWidth cs ≤ tailWidth cs := by
  cases cs with
  | nil => exact Nat.le_refl _
  | cons c cs =>
    rw [wordWidth]
    split
    · rename_i hc
      rw [tailWidth_cons (isWordChar_of_isWordStart hc)]
      exact Nat.succ_le_succ (runWidth_le_tailWidth cs)
    · exact Nat.zero_le _

/-! ## Names inside tokens -/

theorem head?_of_lt_runWidth {p : Char → Bool} (h : front.length < runWidth p (front ++ back)) :
    back.head?.any p = true := by
  induction front with
  | nil =>
    cases hback : back.head?.any p with
    | true => rfl
    | false =>
      rw [List.nil_append, runWidth_eq_zero hback] at h
      cases h
  | cons c front ih =>
    rw [runWidth, List.cons_append, List.takeWhile_cons] at h
    split at h
    · exact ih (Nat.lt_of_succ_lt_succ h)
    · cases h

theorem mem_take_of_length_lt {c : Char} {n : Nat} (h : front.length < n) :
    c ∈ (front ++ c :: back).take n := by
  obtain ⟨k, rfl⟩ := Nat.exists_eq_add_of_lt h
  rw [Nat.add_assoc, List.take_length_add_append]
  simp

section Inside

variable (hfront : goesOn front.reverse = false)
include hfront

/-- A name at the front of a text ends before a place that no name goes on to. -/
theorem tailWidth_lt_of_goesOn (hne : front ≠ []) (hstart : 0 < wordWidth (front ++ back)) :
    tailWidth (front ++ back) < front.length := by
  obtain ⟨c, front, rfl⟩ := List.exists_cons_of_ne_nil hne
  have hc : isWordStart c = true := by
    rw [List.cons_append, wordWidth] at hstart
    split at hstart
    · assumption
    · cases hstart
  rw [← Nat.not_le]
  intro hle
  rw [goesOn_reverse_of_le_tailWidth (isWordChar_of_isWordStart hc) hle] at hfront
  cases hfront

variable (hback : back.head?.any isWordStart = true)
  (hnext : (back.drop (wordWidth back)).head?.any isSpacing = false)
include hback hnext

/-- Among words after spaces, a word that no space follows is the last one. -/
theorem followWidth?_inside {ws : List String} {n : Nat}
    (h : followWidth? ws (front ++ back) = some n) (hlt : front.length < n) :
    n = front.length + wordWidth back := by
  induction ws generalizing front n with
  | nil => cases h; cases hlt
  | cons w ws ih =>
    rw [followWidth?] at h
    split at h
    · rename_i hw
      obtain ⟨m, hm, rfl⟩ := Option.map_eq_some_iff.1 h
      have hspaces : runWidth isSpacing (front ++ back) ≤ front.length := by
        rw [← Nat.not_lt]
        intro hlt
        obtain ⟨c, hc, hspace⟩ := (Option.any_eq_true _ _).1 (head?_of_lt_runWidth hlt)
        rw [hc, Option.any_some] at hback
        rw [isSpacing_of_isInk (isInk_of_isWordStart hback)] at hspace
        cases hspace
      generalize runWidth isSpacing (front ++ back) = k at *
      obtain ⟨spaces, rest, rfl, rfl⟩ := exists_append_of_le_length hspaces
      rw [List.append_assoc, List.drop_left] at hm hlt ⊢
      by_cases hrest : rest = []
      · subst hrest
        cases ws with
        | nil =>
          cases hm
          simp
        | cons w ws =>
          rw [List.nil_append, followWidth?_of_head (List.cons_ne_nil w ws) hnext] at hm
          cases hm
      · rw [List.reverse_append] at hfront
        have hfront := goesOn_of_append hfront
        have hword : wordWidth (rest ++ back) ≤ rest.length := by
          by_cases hpos : 0 < wordWidth (rest ++ back)
          · have := tailWidth_lt_of_goesOn hfront hrest hpos
            have := wordWidth_le_tailWidth (rest ++ back)
            omega
          · omega
        generalize wordWidth (rest ++ back) = k at *
        obtain ⟨word, rest, rfl, rfl⟩ := exists_append_of_le_length hword
        rw [List.append_assoc, List.drop_left] at hm
        rw [List.reverse_append] at hfront
        rw [List.length_append, List.length_append] at hlt ⊢
        have := ih (goesOn_of_append hfront) hm (by omega)
        omega
    · cases h

theorem wordLexeme_inside (hne : front ≠ []) (hstart : front.head?.any isWordStart = true)
    (hlt : front.length < (wordLexeme (front ++ back)).width) :
    ∃ p ∈ phrases, IsPhrase p.1 p.2.1 (front ++ back.take (wordWidth back)) ∧
      wordLexeme (front ++ back) =
        ⟨p.2.2, " ".intercalate (p.1 :: p.2.1), front.length + wordWidth back⟩ := by
  have hpos : 0 < wordWidth (front ++ back) := by
    obtain ⟨c, cs, rfl⟩ := List.exists_cons_of_ne_nil hne
    exact wordWidth_pos hstart (cs ++ back)
  have hword := tailWidth_lt_of_goesOn hfront hne hpos
  obtain hplain | ⟨p, hp, n, hn, hphrase, htail, hlexeme⟩ := wordLexeme_cases (front ++ back)
  · omega
  rw [hlexeme] at hlt ⊢
  rw [htail] at hword
  -- the place is behind the first word of the keyword
  generalize wordWidth (front ++ back) = k at *
  obtain ⟨word, rest, rfl, rfl⟩ := exists_append_of_le_length (Nat.le_of_lt hword)
  rw [List.append_assoc, List.drop_left] at hn
  rw [List.reverse_append] at hfront
  rw [List.length_append] at hlt
  obtain rfl := followWidth?_inside (goesOn_of_append hfront) hback hnext hn
    (Nat.lt_of_add_lt_add_left hlt)
  rw [← Nat.add_assoc, ← List.length_append] at hphrase ⊢
  rw [List.take_length_add_append] at hphrase
  exact ⟨p, hp, hphrase, rfl⟩

/-- A place that no name goes on to, in front of a word that no space follows, is inside no token
but a keyword of several words, of which this word is the last. -/
theorem lexeme_inside (hne : front ≠ []) (hzone : zoneAfter .code front back = .code)
    (hlt : front.length < (lexeme (front ++ back)).width) :
    ∃ p ∈ phrases, IsPhrase p.1 p.2.1 (front ++ back.take (wordWidth back)) ∧
      lexeme (front ++ back) =
        ⟨p.2.2, " ".intercalate (p.1 :: p.2.1), front.length + wordWidth back⟩ := by
  obtain ⟨c, cs, rfl⟩ := List.exists_cons_of_ne_nil hne
  have hcases := lexeme_cases c (cs ++ back)
  rw [← List.cons_append] at hcases
  obtain ⟨hq, hw⟩ | hnumber | ⟨hc, hw⟩ | ⟨-, hw⟩ := hcases
  · -- inside a string the zone would be that of the string
    rw [hw] at hlt
    have hline : c ≠ '\n' := by rcases hq with rfl | rfl <;> decide
    rw [zoneAfter, Zone.step, if_pos hq] at hzone
    exact absurd hzone (zoneAfter_inside_quoted hline (fun h => absurd h Bool.false_ne_true)
      (Nat.lt_of_succ_lt_succ hlt))
  · -- no word starts inside a number
    obtain ⟨d, hd, hstart⟩ := (Option.any_eq_true _ _).1 hback
    obtain ⟨ds, rfl⟩ := List.head?_eq_some_iff.1 hd
    have hfalse : isWordStart d = false := by
      rcases hnumber d (mem_take_of_length_lt hlt) with hd | rfl | rfl
      · exact isWordStart_of_isDigit hd
      · rfl
      · rfl
    rw [hfalse] at hstart
    cases hstart
  · rw [hw] at hlt ⊢
    exact wordLexeme_inside hfront hback hnext hne hc hlt
  · -- the second of two signs is no word
    rcases hw with hw | ⟨hw, hsign⟩
    · rw [hw] at hlt
      exact absurd (Nat.lt_of_succ_lt_succ hlt) (Nat.not_lt_zero _)
    · rw [hw] at hlt
      obtain rfl : cs = [] := List.length_eq_zero_iff.1
        (Nat.lt_one_iff.1 (Nat.lt_of_succ_lt_succ hlt))
      rw [List.nil_append] at hsign
      rw [hsign] at hback
      cases hback

end Inside

/-! ## Dotted names -/

/-- A word and at least one segment of word characters, each segment after a dot. -/
def IsDotted (run : List Char) : Prop :=
  ∃ word segments, word.head?.any isWordStart = true ∧ word.all isWordChar = true ∧
    segments ≠ [] ∧ (∀ s ∈ segments, s ≠ [] ∧ s.all isWordChar = true) ∧
    run = word ++ segments.flatMap ('.' :: ·)

theorem tailWidth_segments {segments : List (List Char)}
    (h : ∀ s ∈ segments, s ≠ [] ∧ s.all isWordChar = true) :
    tailWidth (segments.flatMap ('.' :: ·)) = (segments.flatMap ('.' :: ·)).length := by
  induction segments with
  | nil => rfl
  | cons s segments ih =>
    obtain ⟨⟨hne, hs⟩, hsegments⟩ := List.forall_mem_cons.1 h
    obtain ⟨c, cs, rfl⟩ := List.exists_cons_of_ne_nil hne
    have hc : isWordChar c = true := (Bool.and_eq_true_iff.1 hs).1
    rw [List.flatMap_cons, List.cons_append, List.cons_append, tailWidth_dot hc, List.length_cons,
      ← List.cons_append, tailWidth_append_of_full (tailWidth_of_all hs), ih hsegments,
      List.length_append]

theorem IsDotted.shape {run : List Char} (h : IsDotted run) :
    ∃ c cs rest, run = c :: cs ++ '.' :: rest ∧ isWordStart c = true ∧
      (c :: cs).all isWordChar = true ∧ tailWidth ('.' :: rest) = ('.' :: rest).length := by
  obtain ⟨word, segments, hstart, hword, hne, hsegments, rfl⟩ := h
  obtain ⟨s, segments, rfl⟩ := List.exists_cons_of_ne_nil hne
  obtain ⟨c, hc, hstart⟩ := (Option.any_eq_true _ _).1 hstart
  obtain ⟨cs, rfl⟩ := List.head?_eq_some_iff.1 hc
  exact ⟨c, cs, s ++ segments.flatMap ('.' :: ·), rfl, hstart, hword,
    tailWidth_segments hsegments⟩

theorem takeWhile_word {word : List Char} (h : word.all isWordChar = true) (rest : List Char) :
    (word ++ '.' :: rest).takeWhile isWordChar = word := by
  rw [List.takeWhile_append_of_pos (List.all_eq_true.1 h),
    List.takeWhile_cons_of_neg (by decide), List.append_nil]

theorem dropWhile_word {word : List Char} (h : word.all isWordChar = true) (rest : List Char) :
    (word ++ '.' :: rest).dropWhile isWordChar = '.' :: rest := by
  rw [List.dropWhile_append_of_pos (List.all_eq_true.1 h), List.dropWhile_cons_of_neg (by decide)]

section Word

variable {c : Char} (hstart : isWordStart c = true) (hword : (c :: cs).all isWordChar = true)
include hstart hword

theorem wordWidth_word (rest : List Char) :
    wordWidth (c :: cs ++ '.' :: rest) = (c :: cs).length := by
  rw [List.cons_append, wordWidth_eq_runWidth hstart, ← List.cons_append,
    runWidth_append_of_all hword, runWidth_eq_zero rfl, Nat.add_zero]

theorem lexeme_dotted {rest post : List Char}
    (hrest : tailWidth ('.' :: rest) = ('.' :: rest).length) (hpost : goesOn post = false) :
    lexeme (c :: cs ++ '.' :: rest ++ post) =
      ⟨.identifier, .ofList (c :: cs ++ '.' :: rest), (c :: cs ++ '.' :: rest).length⟩ := by
  have hdotted : tailWidth (c :: cs ++ '.' :: rest ++ post) = (c :: cs ++ '.' :: rest).length := by
    rw [List.append_assoc, tailWidth_append_of_full (tailWidth_of_all hword),
      tailWidth_append_of_full hrest, tailWidth_of_goesOn hpost, Nat.add_zero, List.length_append]
  have hplain : wordWidth (c :: cs ++ '.' :: rest ++ post) = (c :: cs).length := by
    rw [List.append_assoc]
    exact wordWidth_word hstart hword (rest ++ post)
  have hne : tailWidth (c :: cs ++ '.' :: rest ++ post) ≠
      wordWidth (c :: cs ++ '.' :: rest ++ post) := by
    rw [hdotted, hplain]
    simp
  have hlexeme : lexeme (c :: cs ++ '.' :: rest ++ post) =
      wordLexeme (c :: cs ++ '.' :: rest ++ post) := lexeme_of_isWordStart hstart _
  rw [hlexeme, wordLexeme, if_pos hne, hdotted, Lexeme.slice, List.take_left]

end Word

/-! ## The token of a dotted name -/

/-- The characters `range` behind `front` become one token, and the tokens behind it are those of
what follows. -/
def Takes (text : String) (front range back : List Char) (kind : TokenKind) (s : String) : Prop :=
  ∃ ts, (∀ t ∈ ts, t.position.Before (placeAfter front)) ∧
    (tokenize text).tokens = ts ++ ⟨kind, s, placeAfter front⟩ ::
      (tokensFrom (placeAfter (front ++ range)) back).tokens

/-- A keyword of several words takes the first segment of a name as the last of its words. -/
def TakesApart (text : String) (pre run post : List Char) : Prop :=
  ∃ p ∈ phrases, ∃ front words, pre = front ++ words ∧ words ≠ [] ∧
    IsPhrase p.1 p.2.1 (words ++ run.takeWhile isWordChar) ∧
    Takes text front (words ++ run.takeWhile isWordChar) (run.dropWhile isWordChar ++ post) p.2.2
      (" ".intercalate (p.1 :: p.2.1))

theorem takes_of_reaches {text : String} {pre range back : List Char}
    (htext : text.toList = pre ++ (range ++ back)) (hreaches : Reaches [] pre (range ++ back))
    (hne : range ≠ []) (hgap : gapWidth false (range ++ back) = 0) {kind : TokenKind} {s : String}
    (hlexeme : lexeme (range ++ back) = ⟨kind, s, range.length⟩) :
    Takes text pre range back kind s := by
  obtain ⟨ts, hts, htokens⟩ := hreaches
  rw [List.nil_append] at hts htokens
  have hne : range ++ back ≠ [] := by simp [hne]
  have htoken := tokensFrom_lexeme pre hne hgap
  rw [hlexeme, List.take_left, List.drop_left] at htoken
  refine ⟨ts, hts, ?_⟩
  rw [← htoken, ← htokens, tokenize, htext]
  rfl

/-- A place inside the range of a token is no token's place. -/
theorem Takes.notMem {text : String} {front words word back : List Char} {kind : TokenKind}
    {s : String} (h : Takes text front (words ++ word) back kind s) (hwords : words ≠ [])
    (hword : word ≠ []) {t : Token} (ht : t ∈ (tokenize text).tokens) :
    t.position ≠ placeAfter (front ++ words) := by
  obtain ⟨ts, hts, htokens⟩ := h
  rw [htokens, List.mem_append, List.mem_cons] at ht
  rcases ht with ht | rfl | ht
  · exact ((hts t ht).append words).ne
  · exact (placeAfter_before front hwords).ne
  · obtain ⟨hlaid, -, -⟩ := tokensFrom_laid (front ++ (words ++ word)) back
    obtain ⟨ds, -, -, -, hplace⟩ := hlaid.placed ht
    rw [hplace, ← List.append_assoc, List.append_assoc]
    exact (placeAfter_before _ (by simp [hword])).ne.symm

section Dotted

variable {text : String} {pre run post : List Char}

theorem takes_or_takesApart (htext : text.toList = pre ++ (run ++ post)) (hrun : IsDotted run)
    (hzone : zoneAfter .code pre (run ++ post) = .code) (hpre : goesOn pre.reverse = false)
    (hpost : goesOn post = false) :
    Takes text pre run post .identifier (.ofList run) ∨ TakesApart text pre run post := by
  obtain ⟨c, cs, rest, rfl, hstart, hword, hrest⟩ := hrun.shape
  have hgap : gapWidth false (c :: cs ++ '.' :: rest ++ post) = 0 :=
    gapWidth_of_isInk (isInk_of_isWordStart hstart)
  obtain hreaches | ⟨front, words, rfl, hstarts, hlt⟩ :=
    reaches_or_inside [] pre (by simp) hgap hzone
  · exact .inl (takes_of_reaches htext hreaches (by simp) hgap
      (lexeme_dotted hstart hword hrest hpost))
  · right
    have hsplit : c :: cs ++ '.' :: rest ++ post = c :: cs ++ '.' :: (rest ++ post) := by simp
    have hwidth := wordWidth_word hstart hword (rest ++ post)
    have hhead : (c :: cs ++ '.' :: (rest ++ post)).head?.any isWordStart = true := hstart
    rw [hsplit] at hstarts hlt htext
    rw [List.reverse_append] at hpre
    obtain ⟨p, hp, hphrase, hlexeme⟩ := lexeme_inside (goesOn_of_append hpre) hhead
      (by rw [hwidth, List.drop_left]; rfl) hstarts.ne_nil hstarts.zone hlt
    rw [hwidth, List.take_left] at hphrase
    rw [hwidth, ← List.length_append] at hlexeme
    have hreaches := hstarts.reaches
    have hgap := hstarts.gap
    rw [← List.append_assoc] at hlexeme hreaches hgap
    refine ⟨p, hp, front, words, rfl, hstarts.ne_nil, ?_, ?_⟩
    · rwa [takeWhile_word hword]
    · rw [takeWhile_word hword, dropWhile_word hword]
      exact takes_of_reaches (by rw [htext]; simp) hreaches (by simp [hstarts.ne_nil]) hgap hlexeme

/-- **A maximal dotted name is one identifier token**, whatever stands before it, exactly when no
keyword of several words takes its first segment as the last of its words. -/
theorem tokenize_dotted (htext : text.toList = pre ++ (run ++ post)) (hrun : IsDotted run)
    (hzone : zoneAfter .code pre (run ++ post) = .code) (hpre : goesOn pre.reverse = false)
    (hpost : goesOn post = false) :
    Takes text pre run post .identifier (.ofList run) ↔ ¬ TakesApart text pre run post := by
  constructor
  · rintro ⟨ts, -, htokens⟩ ⟨p, -, front, words, rfl, hwords, -, htakes⟩
    have hfirst : run.takeWhile isWordChar ≠ [] := by
      obtain ⟨c, cs, rest, rfl, -, hword, -⟩ := hrun.shape
      rw [takeWhile_word hword]
      exact List.cons_ne_nil c cs
    refine htakes.notMem hwords hfirst (t := ⟨.identifier, .ofList run, _⟩) ?_ rfl
    rw [htokens]
    exact List.mem_append_right _ List.mem_cons_self
  · exact (takes_or_takesApart htext hrun hzone hpre hpost).resolve_right

end Dotted

/-- A name of keywords, behind a string with the mark of a comment and in front of a comment. -/
theorem keywordSegments_taken_whole :
    let pre := "kind = 'no #1' IS ".toList
    let run := "not.in".toList
    let post := " # NOT IN.herd".toList
    let text := "kind = 'no #1' IS not.in # NOT IN.herd"
    text.toList = pre ++ (run ++ post) ∧ IsDotted run ∧
      zoneAfter .code pre (run ++ post) = .code ∧ goesOn pre.reverse = false ∧
      goesOn post = false ∧ Takes text pre run post .identifier "not.in" ∧
      ¬ TakesApart text pre run post := by
  have htext : "kind = 'no #1' IS not.in # NOT IN.herd".toList =
      "kind = 'no #1' IS ".toList ++ ("not.in".toList ++ " # NOT IN.herd".toList) := by decide
  have hrun : IsDotted "not.in".toList :=
    ⟨"not".toList, ["in".toList], by decide, by decide, by decide, by decide, by decide⟩
  have htakes : Takes "kind = 'no #1' IS not.in # NOT IN.herd" "kind = 'no #1' IS ".toList
      "not.in".toList " # NOT IN.herd".toList .identifier "not.in" := by
    refine ⟨[⟨.identifier, "kind", ⟨1, 1⟩⟩, ⟨.comparison .eq, "=", ⟨1, 6⟩⟩,
      ⟨.string, "'no #1'", ⟨1, 8⟩⟩, ⟨.identifier, "IS", ⟨1, 16⟩⟩], ?_, by decide +kernel⟩
    unfold Position.Before
    decide +kernel
  exact ⟨htext, hrun, by decide, by decide, by decide, htakes,
    (tokenize_dotted htext hrun (by decide) (by decide) (by decide)).1 htakes⟩

/-- `NOT` and a name whose first segment is `in` give no identifier with the text of the name. -/
theorem inStock_taken_apart :
    let pre := "NOT ".toList
    let run := "in.stock".toList
    "NOT in.stock".toList = pre ++ (run ++ []) ∧ IsDotted run ∧
      zoneAfter .code pre (run ++ []) = .code ∧ goesOn pre.reverse = false ∧
      goesOn [] = false ∧
      (tokenize "NOT in.stock").tokens = [⟨.notIn, "NOT IN", ⟨1, 1⟩⟩, ⟨.dot, ".", ⟨1, 7⟩⟩,
        ⟨.identifier, "stock", ⟨1, 8⟩⟩] :=
  ⟨by decide, ⟨"in".toList, ["stock".toList], by decide, by decide, by decide, by decide,
    by decide⟩, by decide, by decide, rfl, by decide +kernel⟩

end Eligibility
