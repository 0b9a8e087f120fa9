import Eligibility.Proofs.Token.Range

/-!
# The layout of a text

A text is a sequence of gaps and tokens, and each token stands where its range starts.

* `Gap`, **`gap_gapWidth`**: what may stand between tokens, given what follows;
* `placeAfter`: the place at which a text ends; `Position.Before`;
* **`Laid`**: the tokens of a text with the ranges that they take;
* `Laid.placed`, `Laid.pairwise`: places grow along the text;
* **`tokenize_laid`**: the tokens of a text are laid out over the whole of it.
-/

namespace Eligibility

variable {cs ds : List Char}

/-! ## Gaps -/

/-- The end of the text or of its line, with or without a carriage return. -/
def EndsLine (cs : List Char) : Prop := cs = [] ∨ ∃ ds, cs = '\n' :: ds ∨ cs = '\r' :: '\n' :: ds

/-- The first text has nothing but spaces, tabs, carriage returns and comments, in front of the
second one. A comment runs to the end of its line. -/
inductive Gap : List Char → List Char → Prop
  | nil {ds : List Char} : Gap [] ds
  | blank {c : Char} {gap ds : List Char} (hc : c = ' ' ∨ c = '\t' ∨ c = '\r') (h : Gap gap ds) :
      Gap (c :: gap) ds
  | comment {body gap ds : List Char} (hbody : ∀ c ∈ body, c ≠ '\n' ∧ c ≠ '\r')
      (hend : EndsLine (gap ++ ds)) (h : Gap gap ds) : Gap ('#' :: (body ++ gap)) ds

/-- The rest of a comment, and the gap after it. -/
def CommentTail (gap ds : List Char) : Prop :=
  ∃ body rest, gap = body ++ rest ∧ (∀ c ∈ body, c ≠ '\n' ∧ c ≠ '\r') ∧ EndsLine (rest ++ ds) ∧
    Gap rest ds

theorem CommentTail.cons {c : Char} {gap : List Char} (hc : c ≠ '\n' ∧ c ≠ '\r')
    (h : CommentTail gap ds) : CommentTail (c :: gap) ds := by
  obtain ⟨body, rest, rfl, hbody, hend, hrest⟩ := h
  exact ⟨c :: body, rest, rfl, List.forall_mem_cons.2 ⟨hc, hbody⟩, hend, hrest⟩

theorem CommentTail.gap {gap : List Char} (h : CommentTail gap ds) : Gap ('#' :: gap) ds := by
  obtain ⟨body, rest, rfl, hbody, hend, hrest⟩ := h
  exact .comment hbody hend hrest

theorem isGap_cases {c : Char} (h : isGap c = true) : c = ' ' ∨ c = '\t' ∨ c = '\r' := by
  simpa [isGap, isSpacing, or_assoc] using h

/-- Inside a comment the line has to close. -/
theorem gap_gapWidth_aux (cs : List Char) :
    Gap (cs.take (gapWidth false cs)) (cs.drop (gapWidth false cs)) ∧
      (closesLine cs = true →
        CommentTail (cs.take (gapWidth true cs)) (cs.drop (gapWidth true cs))) := by
  induction cs with
  | nil => exact ⟨.nil, fun _ => ⟨[], [], rfl, nofun, .inl rfl, .nil⟩⟩
  | cons c cs ih =>
    obtain ⟨hgap, htail⟩ := ih
    constructor
    · rw [gapWidth, Bool.false_and, Bool.false_and, if_neg Bool.false_ne_true]
      split
      · rename_i hc
        exact .blank (isGap_cases hc) hgap
      split
      · rename_i hc
        rw [Bool.and_eq_true, beq_iff_eq] at hc
        obtain ⟨rfl, hclose⟩ := hc
        exact (htail hclose).gap
      · exact .nil
    · intro hclose
      rw [gapWidth]
      split
      · rename_i hc
        simp only [Bool.true_and, Bool.and_eq_true, bne_iff_ne] at hc
        rw [closesLine, if_neg hc.1, if_neg hc.2] at hclose
        exact (htail hclose).cons hc
      · rename_i hc
        have hor : c = '\n' ∨ c = '\r' := by
          rwa [Bool.true_and, Bool.and_eq_true, bne_iff_ne, bne_iff_ne,
            Decidable.not_and_iff_or_not, Decidable.not_not, Decidable.not_not] at hc
        rcases hor with rfl | rfl
        · exact ⟨[], [], rfl, nofun, .inr ⟨cs, .inl rfl⟩, .nil⟩
        · have hnext : cs.head? = some '\n' := by
            simpa [closesLine] using hclose
          obtain ⟨ds, rfl⟩ := List.head?_eq_some_iff.1 hnext
          exact ⟨[], ['\r'], rfl, nofun, .inr ⟨ds, .inr rfl⟩, .blank (.inr (.inr rfl)) .nil⟩

theorem gap_gapWidth (cs : List Char) :
    Gap (cs.take (gapWidth false cs)) (cs.drop (gapWidth false cs)) := (gap_gapWidth_aux cs).1

theorem gapWidth_le (inComment : Bool) (cs : List Char) : gapWidth inComment cs ≤ cs.length := by
  induction cs generalizing inComment with
  | nil => exact Nat.le_refl _
  | cons c cs ih =>
    rw [gapWidth]
    split
    · exact Nat.succ_le_succ (ih _)
    split
    · exact Nat.succ_le_succ (ih _)
    split
    · exact Nat.succ_le_succ (ih _)
    · exact Nat.zero_le _

theorem Gap.newline_notMem {gap : List Char} (h : Gap gap ds) : '\n' ∉ gap := by
  induction h with
  | nil => exact List.not_mem_nil
  | blank hc _ ih =>
    rw [List.mem_cons, not_or]
    refine ⟨?_, ih⟩
    rcases hc with rfl | rfl | rfl <;> decide
  | comment hbody _ _ ih =>
    rw [List.mem_cons, List.mem_append, not_or, not_or]
    exact ⟨by decide, fun hm => (hbody _ hm).1 rfl, ih⟩

/-! ## Places -/

/-- The place at which a text ends: line feeds part its lines, and columns count characters. -/
def placeAfter (cs : List Char) : Position :=
  ⟨cs.count '\n' + 1, (cs.reverse.takeWhile (· != '\n')).length + 1⟩

theorem placeAfter_newline (cs : List Char) :
    placeAfter (cs ++ ['\n']) = (placeAfter cs).nextLine := by
  simp [placeAfter, Position.nextLine]

theorem placeAfter_right (cs : List Char) (h : '\n' ∉ ds) :
    placeAfter (cs ++ ds) = (placeAfter cs).right ds.length := by
  have hall : ∀ c ∈ ds.reverse, (c != '\n') = true := by
    intro c hc
    rw [bne_iff_ne]
    exact fun e => h (List.mem_reverse.1 (e ▸ hc))
  rw [placeAfter, placeAfter, Position.right, List.count_append, List.count_eq_zero.2 h,
    List.reverse_append, List.takeWhile_append_of_pos hall, List.length_append,
    List.length_reverse, Position.mk.injEq]
  dsimp only
  omega

namespace Position

/-- An earlier line, or the same line and an earlier column. -/
def Before (p q : Position) : Prop := p.line < q.line ∨ p.line = q.line ∧ p.column < q.column

theorem Before.trans {p q r : Position} (hp : p.Before q) (hq : q.Before r) : p.Before r := by
  unfold Before at *
  omega

theorem Before.ne {p q : Position} (h : p.Before q) : p ≠ q := by
  rintro rfl
  unfold Before at h
  omega

end Position

theorem placeAfter_before_cons (cs : List Char) (c : Char) :
    (placeAfter cs).Before (placeAfter (cs ++ [c])) := by
  by_cases hc : c = '\n'
  · rw [hc, placeAfter_newline]
    exact .inl (Nat.lt_succ_self _)
  · rw [placeAfter_right cs (by simpa using Ne.symm hc)]
    exact .inr ⟨rfl, Nat.lt_succ_self _⟩

theorem placeAfter_before (cs : List Char) (h : ds ≠ []) :
    (placeAfter cs).Before (placeAfter (cs ++ ds)) := by
  induction ds generalizing cs with
  | nil => exact absurd rfl h
  | cons d ds ih =>
    have hsplit : cs ++ d :: ds = cs ++ [d] ++ ds := by simp
    rw [hsplit]
    by_cases hn : ds = []
    · rw [hn, List.append_nil]
      exact placeAfter_before_cons cs d
    · exact (placeAfter_before_cons cs d).trans (ih _ hn)

/-! ## Tokens -/

/-- After the text `before`, the given text is a sequence of gaps and of ranges that the tokens
take one after the other, each token at the place where its range starts. -/
inductive Laid : (before text : List Char) → List Token → Prop
  | last {before gap : List Char} (hgap : Gap gap []) : Laid before gap []
  | token {before gap range rest : List Char} {t : Token} {ts : List Token}
      (hgap : Gap gap (range ++ rest)) (hrange : range ≠ []) (hspells : t.Spells range)
      (hplace : t.position = placeAfter (before ++ gap))
      (h : Laid (before ++ gap ++ range) rest ts) : Laid before (gap ++ (range ++ rest)) (t :: ts)

section Laid

variable {before text : List Char} {ts : List Token}

/-- Every token stands at a place within the text. -/
theorem Laid.placed (h : Laid before text ts) {t : Token} (ht : t ∈ ts) :
    ∃ front back, text = front ++ back ∧ back ≠ [] ∧ t.position = placeAfter (before ++ front) := by
  induction h with
  | last => cases ht
  | @token before gap range rest u ts hgap hrange hspells hplace h ih =>
    rcases List.mem_cons.1 ht with rfl | ht
    · exact ⟨gap, range ++ rest, rfl, by simp [hrange], hplace⟩
    · obtain ⟨front, back, rfl, hback, hfront⟩ := ih ht
      exact ⟨gap ++ (range ++ front), back, by simp, hback, by rw [hfront]; simp⟩

/-- Places grow along the tokens, up to the end of the text. -/
theorem Laid.pairwise (h : Laid before text ts) {finish : Token}
    (hfinish : finish.position = placeAfter (before ++ text)) :
    (ts ++ [finish]).Pairwise fun t u => t.position.Before u.position := by
  induction h with
  | last => exact List.pairwise_singleton _ _
  | @token before gap range rest t ts hgap hrange hspells hplace h ih =>
    have hend : finish.position = placeAfter (before ++ gap ++ range ++ rest) := by
      rw [hfinish]; simp
    refine List.pairwise_cons.2 ⟨fun u hu => ?_, ih hend⟩
    obtain ⟨front, hu⟩ : ∃ front, u.position = placeAfter (before ++ gap ++ (range ++ front)) := by
      rcases List.mem_append.1 hu with hu | hu
      · obtain ⟨front, -, -, -, hu⟩ := h.placed hu
        exact ⟨front, by rw [hu]; simp⟩
      · rw [List.mem_singleton.1 hu, hend]
        exact ⟨rest, by simp⟩
    rw [hplace, hu]
    exact placeAfter_before _ (by simp [hrange])

end Laid

/-! ## The tokens of a text -/

theorem tokensFrom_of_nil {p : Position} (h : cs.drop (gapWidth false cs) = []) :
    tokensFrom p cs = ⟨[], p.right (gapWidth false cs)⟩ := by
  rw [tokensFrom]
  exact dif_pos h

theorem tokensFrom_of_ne_nil {p : Position} (h : cs.drop (gapWidth false cs) ≠ []) :
    tokensFrom p cs =
      let ahead := cs.drop (gapWidth false cs)
      let start := p.right (gapWidth false cs)
      let rest := tokensFrom (start.after (lexeme ahead)) (ahead.drop (lexeme ahead).width)
      ⟨⟨(lexeme ahead).kind, (lexeme ahead).text, start⟩ :: rest.tokens, rest.finish⟩ := by
  rw [tokensFrom]
  exact dif_neg h

/-- The token at the front takes its range and moves the place past it. -/
theorem lexeme_range (before : List Char) (hne : cs ≠ []) (p : Position) :
    (lexeme cs).kind ≠ .eof ∧ cs.take (lexeme cs).width ≠ [] ∧
      (⟨(lexeme cs).kind, (lexeme cs).text, p⟩ : Token).Spells (cs.take (lexeme cs).width) ∧
      (placeAfter before).after (lexeme cs) =
        placeAfter (before ++ cs.take (lexeme cs).width) := by
  have hpos := lexeme_width_pos hne
  obtain ⟨c, cs, rfl⟩ := List.exists_cons_of_ne_nil hne
  have hrange : (c :: cs).take (lexeme (c :: cs)).width ≠ [] := by
    rw [ne_eq, List.take_eq_nil_iff, not_or]
    exact ⟨Nat.ne_of_gt hpos, hne⟩
  by_cases hc : c = '\n'
  · subst hc
    refine ⟨nofun, hrange, ?_, ?_⟩
    · have hkind : TokenKind.newline ∉ TokenKind.phrases.map (·.2.2) := by decide
      exact (if_neg hkind).mpr rfl
    · exact (placeAfter_newline before).symm
  · have hplain := plain_lexeme hc cs
    refine ⟨hplain.kind.2, hrange, hplain.spells p, ?_⟩
    rw [Position.after, if_neg hplain.kind.1, placeAfter_right _ hplain.inline.2, List.length_take,
      Nat.min_eq_left hplain.inline.1]

theorem tokensFrom_laid (before cs : List Char) :
    Laid before cs (tokensFrom (placeAfter before) cs).tokens ∧
      (tokensFrom (placeAfter before) cs).finish = placeAfter (before ++ cs) ∧
      ∀ t ∈ (tokensFrom (placeAfter before) cs).tokens, t.kind ≠ .eof := by
  -- every token takes at least one character, and so the rest is shorter
  induction hn : cs.length using Nat.strongRecOn generalizing before cs with
  | _ n ih =>
    have hgap := gap_gapWidth cs
    have hsplit := List.take_append_drop (gapWidth false cs) cs
    have hstart : (placeAfter before).right (gapWidth false cs) =
        placeAfter (before ++ cs.take (gapWidth false cs)) := by
      rw [placeAfter_right _ hgap.newline_notMem, List.length_take,
        Nat.min_eq_left (gapWidth_le _ _)]
    have hle : (cs.drop (gapWidth false cs)).length ≤ n := by
      rw [List.length_drop, hn]
      exact Nat.sub_le ..
    generalize hg : cs.take (gapWidth false cs) = gap at *
    generalize ha : cs.drop (gapWidth false cs) = ahead at *
    by_cases hnil : ahead = []
    · rw [tokensFrom_of_nil (ha.trans hnil), hstart, ← hsplit, hnil, List.append_nil]
      rw [hnil] at hgap
      exact ⟨.last hgap, rfl, nofun⟩
    · obtain ⟨hkind, hrange, hspells, hafter⟩ :=
        lexeme_range (before ++ gap) hnil (placeAfter (before ++ gap))
      have hahead := List.take_append_drop (lexeme ahead).width ahead
      have hlt := Nat.lt_of_lt_of_le (length_drop_lexeme hnil) hle
      obtain ⟨hlaid, hfinish, hkinds⟩ :=
        ih _ hlt (before ++ gap ++ ahead.take (lexeme ahead).width) _ rfl
      rw [tokensFrom_of_ne_nil (by rw [ha]; exact hnil)]
      simp only [ha, hstart, hafter]
      refine ⟨?_, ?_, List.forall_mem_cons.2 ⟨hkind, hkinds⟩⟩
      · have hgap' :
            Gap gap (ahead.take (lexeme ahead).width ++ ahead.drop (lexeme ahead).width) := by
          rwa [hahead]
        have := Laid.token hgap' hrange hspells rfl hlaid
        rwa [hahead, hsplit] at this
      · rw [hfinish, ← hsplit, List.append_assoc, hahead, List.append_assoc]

/-- The tokens of a text are laid out over the whole of it, at growing places up to the one at which
the text ends. -/
theorem tokenize_laid (text : String) :
    Laid [] text.toList (tokenize text).tokens ∧
      (tokenize text).finish = placeAfter text.toList ∧
      (tokenize text).toList.Pairwise fun t u => t.position.Before u.position := by
  obtain ⟨hlaid, hfinish, -⟩ := tokensFrom_laid [] text.toList
  exact ⟨hlaid, hfinish, hlaid.pairwise hfinish⟩

end Eligibility
