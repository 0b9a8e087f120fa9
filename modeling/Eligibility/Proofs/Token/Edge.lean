import Eligibility.Proofs.Token.Zone

/-!
# Ends of lines

No scanner looks past the end of a line. Where a comment starts it stops as well, unless it is
inside a string.

* `Edge`: the end of the text, of a line, or a comment up to there; `IsLine`: characters of a line;
* `gapWidth_edge`: a gap in front of an edge;
* `quotedWidth_edge`, `wordLexeme_edge`, `symbolLexeme_edge`, `lexeme_append`,
  **`lexeme_edge`**: the token at the front is the same whatever edge follows;
* `ReadsApart`, `ReadsApart.tokensFrom`: texts whose tokens do not depend on what follows;
* **`tokensFrom_line`**: the tokens of a line, and then those of what follows it.
-/

namespace Eligibility

open Text TokenKind

variable {cs ds : List Char}

/-! ## Edges -/

/-- The end of the text, a line feed, or a comment that nothing but the end of its line ends. -/
structure Edge (ds : List Char) : Prop where
  head : ∀ c ∈ ds.head?, c = '\n' ∨ c = '#'
  closes : closesLine ds = true

/-- The characters stand on one line, and none of them is a carriage return. -/
def IsLine (cs : List Char) : Prop := ∀ c ∈ cs, c ≠ '\n' ∧ c ≠ '\r'

instance (cs : List Char) : Decidable (IsLine cs) := List.decidableBAll _ cs

theorem edge_nil : Edge [] := ⟨nofun, rfl⟩

theorem edge_newline (ds : List Char) : Edge ('\n' :: ds) :=
  ⟨fun _ hc => .inl (Option.some.inj hc).symm, rfl⟩

theorem Edge.head?_any (hds : Edge ds) {p : Char → Bool} (hn : p '\n' = false)
    (hm : p '#' = false) : ds.head?.any p = false := by
  cases ds with
  | nil => rfl
  | cons d ds => rcases hds.head d rfl with rfl | rfl <;> assumption

theorem Edge.head?_ne (hds : Edge ds) {c : Char} (hn : c ≠ '\n') (hm : c ≠ '#') :
    ds.head? ≠ some c := fun h => (hds.head c h).elim hn hm

theorem IsLine.tail {c : Char} (h : IsLine (c :: cs)) : IsLine cs :=
  fun d hd => h d (List.mem_cons_of_mem c hd)

theorem IsLine.drop (h : IsLine cs) (n : Nat) : IsLine (cs.drop n) :=
  fun c hc => h c (List.mem_of_mem_drop hc)

theorem closesLine_append (h : IsLine cs) (ds : List Char) :
    closesLine (cs ++ ds) = closesLine ds := by
  induction cs with
  | nil => rfl
  | cons c cs ih =>
    have hc := h c List.mem_cons_self
    rw [List.cons_append, closesLine, if_neg hc.1, if_neg hc.2, ih h.tail]

theorem IsLine.closes (h : IsLine cs) : closesLine cs = true := by
  have := closesLine_append h []
  rwa [List.append_nil] at this

theorem edge_comment {body : List Char} (hbody : IsLine body) (hds : Edge ds) :
    Edge ('#' :: (body ++ ds)) := by
  refine ⟨fun _ hc => .inr (Option.some.inj hc).symm, ?_⟩
  rw [closesLine, if_neg (by decide), if_neg (by decide), closesLine_append hbody, hds.closes]

/-! ## Gaps -/

theorem Edge.gapWidth_eq (hds : Edge ds) (b : Bool) : gapWidth b ds = gapWidth false ds := by
  cases ds with
  | nil => rfl
  | cons d ds =>
    have hcloses := hds.closes
    rcases hds.head d rfl with rfl | rfl
    · cases b <;> rfl
    · rw [closesLine, if_neg (by decide), if_neg (by decide)] at hcloses
      cases b <;> simp [gapWidth, isGap, isSpacing, hcloses]

/-- A gap that fills its line goes on behind it; any other gap ends where it did. -/
theorem gapWidth_edge (hcs : IsLine cs) (hds : Edge ds) (b : Bool) :
    gapWidth b (cs ++ ds) =
      if gapWidth b cs = cs.length then cs.length + gapWidth false ds else gapWidth b cs := by
  induction cs generalizing b with
  | nil =>
    rw [List.nil_append, hds.gapWidth_eq, List.length_nil, gapWidth, if_pos rfl, Nat.zero_add]
  | cons c cs ih =>
    have hstep (b' : Bool) : gapWidth b' (cs ++ ds) + 1 =
        if gapWidth b' cs + 1 = cs.length + 1 then cs.length + 1 + gapWidth false ds
        else gapWidth b' cs + 1 := by
      rw [ih hcs.tail]
      simp only [Nat.add_right_cancel_iff]
      split <;> omega
    rw [List.cons_append, gapWidth, gapWidth, closesLine_append hcs.tail, hds.closes,
      hcs.tail.closes, List.length_cons]
    split
    · exact hstep true
    split
    · exact hstep false
    split
    · exact hstep true
    · rw [if_neg (Nat.succ_ne_zero _).symm]

/-! ## Strings -/

/-- The zone is inside a string. -/
def Zone.isString : Zone → Bool
  | string .. => true
  | _ => false

/-- A string that ends in its line, or that the end of the line cuts off, is the same in front of
another edge. -/
theorem quotedWidth_edge {quote : Char} (hq : quote = '"' ∨ quote = '\'') (hcs : IsLine cs)
    (hds : Edge ds) {escaped : Bool} (he : escaped = true → cs.head? = some quote)
    (hs : ds.head? = some '#' → (zoneAfter (.string quote escaped) cs []).isString = false) :
    quotedWidth quote escaped (cs ++ ds) = quotedWidth quote escaped cs := by
  have hhead : ds.head? ≠ some quote := by
    rcases hq with rfl | rfl <;> exact hds.head?_ne (by decide) (by decide)
  induction cs generalizing escaped with
  | nil =>
    have hesc : escaped = false := Bool.eq_false_iff.2 fun h => nomatch he h
    subst hesc
    cases ds with
    | nil => rfl
    | cons d ds =>
      rcases hds.head d rfl with rfl | rfl
      · rfl
      · exact absurd (hs rfl) nofun
  | cons c cs ih =>
    have hc : c ≠ '\n' := (hcs c List.mem_cons_self).1
    have hnext : (cs ++ []).head? ≠ some '\n' := by
      rw [List.append_nil]
      intro hn
      exact (hcs.tail _ (List.mem_of_mem_head? hn)).1 rfl
    rw [zoneAfter, Zone.step, Zone.upTo_of_ne hnext, List.append_nil] at hs
    rw [List.cons_append, quotedWidth, quotedWidth]
    by_cases hesc : escaped = true
    · rw [if_pos hesc] at hs
      rw [if_pos hesc, if_pos hesc, ih hcs.tail (fun h => absurd h Bool.false_ne_true) hs]
    rw [if_neg hesc] at hs
    rw [if_neg hesc, if_neg hesc, if_neg hc, if_neg hc]
    by_cases hcq : c = quote
    · rw [if_pos hcq, if_pos hcq]
    rw [if_neg hcq] at hs
    rw [if_neg hcq, if_neg hcq]
    have hpeek : ((cs ++ ds).head? == some quote) = (cs.head? == some quote) := by
      cases cs with
      | nil => exact beq_eq_false_iff_ne.2 hhead
      | cons d cs => rfl
    rw [hpeek, ih hcs.tail (fun h => ?_) hs]
    rw [Bool.and_eq_true, beq_iff_eq, beq_iff_eq] at h
    exact h.2

/-! ## Words -/

section Word

variable (hds : Edge ds)
include hds

theorem wordWidth_edge (cs : List Char) : wordWidth (cs ++ ds) = wordWidth cs := by
  have hstart : ds.head?.any isWordStart = false := hds.head?_any (by decide) (by decide)
  have hchar : ds.head?.any isWordChar = false := hds.head?_any (by decide) (by decide)
  cases cs with
  | nil =>
    cases ds with
    | nil => rfl
    | cons d ds =>
      have hd : ¬ isWordStart d = true := Bool.eq_false_iff.1 hstart
      exact if_neg hd
  | cons c cs => rw [List.cons_append, wordWidth, wordWidth, runWidth_append cs hchar]

theorem tailWidth_edge (cs : List Char) : tailWidth (cs ++ ds) = tailWidth cs :=
  tailWidth_append_of_head cs (hds.head?_any (by decide) (by decide))
    (hds.head?_ne (by decide) (by decide))

theorem followWidth?_edge (ws : List String) (cs : List Char) :
    followWidth? ws (cs ++ ds) = followWidth? ws cs := by
  induction ws generalizing cs with
  | nil => rfl
  | cons w ws ih =>
    have hspacing : ds.head?.any isSpacing = false := hds.head?_any (by decide) (by decide)
    have hword := (inline_wordWidth (cs.drop (runWidth isSpacing cs))).1
    simp only [followWidth?, runWidth_append cs hspacing,
      List.drop_append_of_le_length (runWidth_le isSpacing cs), wordWidth_edge hds,
      List.take_append_of_le_length hword, List.drop_append_of_le_length hword, ih]

theorem phrase?_edge {first : String} (h : first.length ≤ cs.length) :
    phrase? first (cs ++ ds) = phrase? first cs := by
  unfold phrase?
  rw [List.drop_append_of_le_length h]
  simp only [followWidth?_edge hds]

omit hds in
theorem slice_append {n : Nat} (h : n ≤ cs.length) (k : TokenKind) :
    Lexeme.slice k n (cs ++ ds) = Lexeme.slice k n cs := by
  rw [Lexeme.slice, Lexeme.slice, List.take_append_of_le_length h]

theorem wordLexeme_edge (cs : List Char) : wordLexeme (cs ++ ds) = wordLexeme cs := by
  have hword := inline_wordWidth cs
  have hfirst : (String.ofList (cs.take (wordWidth cs))).length ≤ cs.length := by
    rw [length_ofList_take hword]
    exact hword.1
  simp only [wordLexeme, wordWidth_edge hds, tailWidth_edge hds,
    List.take_append_of_le_length hword.1, phrase?_edge hds hfirst,
    slice_append (inline_tailWidth cs).1, slice_append hword.1]

/-- Of two signs that are one token the second is an equals sign. -/
theorem symbolLexeme_edge (c : Char) (cs : List Char) :
    symbolLexeme (c :: (cs ++ ds)) = symbolLexeme (c :: cs) := by
  have hfind : symbols.find? (fun s => s.1.isPrefixOf (c :: (cs ++ ds))) =
      symbols.find? fun s => s.1.isPrefixOf (c :: cs) := by
    cases cs with
    | nil =>
      cases ds with
      | nil => rfl
      | cons d ds =>
        have hd : ('=' == d) = false :=
          beq_eq_false_iff_ne.2 fun e => hds.head?_ne (by decide) (by decide) (congrArg some e.symm)
        simp [symbols, List.find?, List.isPrefixOf, hd]
    | cons d cs => simp [symbols, List.find?, List.isPrefixOf]
  have hwhole : c :: (cs ++ ds) = c :: cs ++ ds := rfl
  unfold symbolLexeme
  rw [hfind]
  split
  · rename_i s kind hs
    have hpre := List.find?_some hs
    rw [hwhole, slice_append (List.isPrefixOf_iff_prefix.1 hpre).length_le]
  · rw [hwhole, slice_append (Nat.succ_le_succ (Nat.zero_le _))]

end Word

/-! ## The token at the front -/

/-- The token at the front does not change in front of an edge, if it is no string that does. -/
theorem lexeme_append {c : Char} (hds : Edge ds)
    (hquoted : c = '"' ∨ c = '\'' → quotedWidth c false (cs ++ ds) = quotedWidth c false cs) :
    lexeme (c :: (cs ++ ds)) = lexeme (c :: cs) := by
  have hwhole : c :: (cs ++ ds) = c :: cs ++ ds := rfl
  have hdigit : ds.head?.any Char.isDigit = false := hds.head?_any (by decide) (by decide)
  have hpoint : ds.head? ≠ some '.' := hds.head?_ne (by decide) (by decide)
  simp only [lexeme]
  split
  · rw [hwhole, slice_append (Nat.succ_le_succ (Nat.zero_le _))]
  rename_i hc
  split
  · rename_i hq
    have hinline : Inline (quotedWidth c false cs) cs :=
      inline_quotedWidth hc fun h => absurd h Bool.false_ne_true
    rw [hquoted hq, hwhole, slice_append (Nat.succ_le_succ hinline.1)]
  split
  · rw [hwhole, magnitudeWidth_append_of_head _ hdigit hpoint, slice_append (magnitudeWidth_le _)]
  rw [head?_append_any hdigit]
  split
  · rw [hwhole, magnitudeWidth_append_of_head _ hdigit hpoint,
      slice_append (Nat.succ_le_succ (magnitudeWidth_le _))]
  split
  · rw [hwhole, wordLexeme_edge hds]
  · exact symbolLexeme_edge hds c cs

/-- **The token at the front of a line is the same whatever edge follows.** A comment may follow
where no string is open. -/
theorem lexeme_edge {c : Char} (hcs : IsLine (c :: cs)) (hds : Edge ds)
    (hs : ds.head? = some '#' → (zoneAfter .code (c :: cs) []).isString = false) :
    lexeme (c :: (cs ++ ds)) = lexeme (c :: cs) := by
  refine lexeme_append hds fun hq => ?_
  have hnext : (cs ++ []).head? ≠ some '\n' := by
    rw [List.append_nil]
    exact fun hn => (hcs.tail _ (List.mem_of_mem_head? hn)).1 rfl
  rw [zoneAfter, Zone.step, if_pos hq, Zone.upTo_of_ne hnext] at hs
  exact quotedWidth_edge hq hcs.tail hds (fun h => absurd h Bool.false_ne_true) hs

/-! ## Lines -/

/-- The stream behind other tokens. -/
def TokenStream.behind (s : TokenStream) (ts : List Token) : TokenStream :=
  ⟨ts ++ s.tokens, s.finish⟩

theorem TokenStream.behind_behind (s : TokenStream) (ts us : List Token) :
    (s.behind ts).behind us = s.behind (us ++ ts) := by
  rw [behind, behind, behind, List.append_assoc]

theorem Position.right_right (p : Position) (m n : Nat) :
    (p.right m).right n = p.right (m + n) := by
  rw [right, right, right, Nat.add_assoc]

theorem tokensFrom_gap (h : gapWidth false (cs ++ ds) = cs.length + gapWidth false ds)
    (p : Position) : tokensFrom p (cs ++ ds) = tokensFrom (p.right cs.length) ds := by
  have hdrop : (cs ++ ds).drop (gapWidth false (cs ++ ds)) = ds.drop (gapWidth false ds) := by
    rw [h, ← List.drop_drop, List.drop_left]
  by_cases hnil : ds.drop (gapWidth false ds) = []
  · rw [tokensFrom_of_nil (hdrop.trans hnil), tokensFrom_of_nil hnil, h, Position.right_right]
  · rw [tokensFrom_of_ne_nil (by rwa [hdrop]), tokensFrom_of_ne_nil hnil, hdrop, h,
      Position.right_right]

/-- Behind the gap at its front a text has no other one. -/
theorem gapWidth_drop (cs : List Char) : gapWidth false (cs.drop (gapWidth false cs)) = 0 := by
  by_cases hnil : cs.drop (gapWidth false cs) = []
  · rw [hnil]
    rfl
  · have hsplit := List.take_append_drop (gapWidth false cs) cs
    have hlen : (cs.take (gapWidth false cs)).length = gapWidth false cs := by
      rw [List.length_take, Nat.min_eq_left (gapWidth_le _ _)]
    have hwidth := gapWidth_append (openIn_false _) (zoneAfter_gap (openIn_false cs) hnil)
      (Nat.le_of_eq (by rw [hsplit, hlen]))
    rw [hsplit, hlen] at hwidth
    omega

theorem zoneAfter_drop_gap (hne : cs.drop (gapWidth false cs) ≠ []) :
    zoneAfter .code (cs.drop (gapWidth false cs)) [] = zoneAfter .code cs [] := by
  have hgap := zoneAfter_gap (openIn_false cs) hne
  have hsplit := zoneAfter_append .code (cs.take (gapWidth false cs))
    (cs.drop (gapWidth false cs)) []
  rw [List.take_append_drop, List.append_nil] at hsplit
  exact (hsplit.trans (congrArg (zoneAfter · _ _) hgap)).symm

/-- The zone at the end of a line is outside strings behind a token that is the end of the line, or
else that of the part behind the token. -/
theorem isString_drop_lexeme {c : Char} (hgap : gapWidth false (c :: cs) = 0)
    (hs : (zoneAfter .code (c :: cs) []).isString = false) :
    (zoneAfter .code ((c :: cs).drop (lexeme (c :: cs)).width) []).isString = false := by
  by_cases hnil : (c :: cs).drop (lexeme (c :: cs)).width = []
  · rw [hnil]
    rfl
  · have hlexeme := zoneAfter_lexeme hgap hnil
    have hsplit := zoneAfter_append .code ((c :: cs).take (lexeme (c :: cs)).width)
      ((c :: cs).drop (lexeme (c :: cs)).width) []
    rw [List.take_append_drop, List.append_nil, hlexeme] at hsplit
    rwa [← hsplit]

theorem tokensFrom_of_cons {c : Char} {rest : List Char}
    (h : cs.drop (gapWidth false cs) = c :: rest) (p : Position) :
    tokensFrom p cs =
      (tokensFrom ((p.right (gapWidth false cs)).after (lexeme (c :: rest)))
        ((c :: rest).drop (lexeme (c :: rest)).width)).behind
          [⟨(lexeme (c :: rest)).kind, (lexeme (c :: rest)).text,
            p.right (gapWidth false cs)⟩] := by
  rw [tokensFrom_of_ne_nil (by rw [h]; exact nofun), h]
  rfl

theorem tokensFrom_nil (p : Position) : tokensFrom p [] = ⟨[], p⟩ :=
  tokensFrom_of_nil rfl

theorem tokensFrom_front {k : TokenKind} {s : String} (hne : cs ≠ [])
    (hgap : gapWidth false (cs ++ ds) = 0) (hk : k ≠ .newline)
    (hl : lexeme (cs ++ ds) = ⟨k, s, cs.length⟩) (p : Position) :
    tokensFrom p (cs ++ ds) = (tokensFrom (p.right cs.length) ds).behind [⟨k, s, p⟩] := by
  obtain ⟨c, cs, rfl⟩ := List.exists_cons_of_ne_nil hne
  have hafter : p.after ⟨k, s, (c :: cs).length⟩ = p.right (c :: cs).length := if_neg hk
  have hahead : (c :: cs ++ ds).drop (gapWidth false (c :: cs ++ ds)) = c :: (cs ++ ds) := by
    rw [hgap]
    rfl
  rw [tokensFrom_of_cons hahead, hgap, ← List.cons_append, hl]
  change (tokensFrom (p.after _) _).behind [⟨k, s, p⟩] = _
  rw [hafter, List.drop_left]

theorem tokensFrom_single {k : TokenKind} {s : String} (hne : cs ≠ [])
    (hgap : gapWidth false cs = 0) (hk : k ≠ .newline) (hl : lexeme cs = ⟨k, s, cs.length⟩)
    (p : Position) : tokensFrom p cs = ⟨[⟨k, s, p⟩], p.right cs.length⟩ := by
  rw [← List.append_nil cs] at hgap hl
  have hfront := tokensFrom_front hne hgap hk (hl.trans (by rw [List.append_nil])) p
  rwa [List.append_nil, tokensFrom_nil] at hfront

theorem lexeme_width_le (c : Char) (cs : List Char) :
    (lexeme (c :: cs)).width ≤ (c :: cs).length := by
  by_cases hc : c = '\n'
  · rw [hc]
    exact Nat.succ_le_succ (Nat.zero_le _)
  · exact (plain_lexeme hc cs).inline.1

/-- Texts that are read apart from `ds` behind them: the gap and the token at the front of such a
text stay as they are, and what stands behind the token is such a text again. -/
structure ReadsApart (P : List Char → Prop) (ds : List Char) : Prop where
  gap : ∀ cs, P cs → gapWidth false (cs ++ ds) =
    if gapWidth false cs = cs.length then cs.length + gapWidth false ds else gapWidth false cs
  token : ∀ cs c rest, P cs → cs.drop (gapWidth false cs) = c :: rest →
    lexeme (c :: (rest ++ ds)) = lexeme (c :: rest) ∧
      P ((c :: rest).drop (lexeme (c :: rest)).width)

theorem ReadsApart.tokensFrom {P : List Char → Prop} (hP : ReadsApart P ds) (h : P cs)
    (p : Position) :
    tokensFrom p (cs ++ ds) =
      (tokensFrom (tokensFrom p cs).finish ds).behind (tokensFrom p cs).tokens := by
  -- every token takes at least one character, and so the rest is shorter
  induction hn : cs.length using Nat.strongRecOn generalizing cs p with
  | _ n ih =>
    subst hn
    have hgap := hP.gap cs h
    cases hahead : cs.drop (gapWidth false cs) with
    | nil =>
      have hfull : gapWidth false cs = cs.length :=
        Nat.le_antisymm (gapWidth_le _ _) (List.drop_eq_nil_iff.1 hahead)
      rw [if_pos hfull] at hgap
      rw [tokensFrom_gap hgap, tokensFrom_of_nil hahead, hfull]
      rfl
    | cons c rest =>
      have hlen : (c :: rest).length = cs.length - gapWidth false cs := by
        rw [← hahead, List.length_drop]
      have hfull : gapWidth false cs ≠ cs.length := by
        rw [List.length_cons] at hlen
        omega
      rw [if_neg hfull] at hgap
      have hahead' : (cs ++ ds).drop (gapWidth false (cs ++ ds)) = c :: (rest ++ ds) := by
        rw [hgap, List.drop_append_of_le_length (gapWidth_le _ _), hahead]
        rfl
      obtain ⟨hlexeme, hrest⟩ := hP.token cs c rest h hahead
      have hbehind : (c :: (rest ++ ds)).drop (lexeme (c :: rest)).width =
          (c :: rest).drop (lexeme (c :: rest)).width ++ ds :=
        List.drop_append_of_le_length (lexeme_width_le c rest)
      have hlt := length_drop_lexeme (List.cons_ne_nil c rest)
      rw [tokensFrom_of_cons hahead, tokensFrom_of_cons hahead', hgap, hlexeme, hbehind,
        ih _ (by omega) hrest _ rfl, TokenStream.behind_behind]
      rfl

theorem finish_line (hcs : IsLine cs) (p : Position) :
    (tokensFrom p cs).finish = p.right cs.length := by
  induction hn : cs.length using Nat.strongRecOn generalizing cs p with
  | _ n ih =>
    subst hn
    have hgap := gapWidth_le false cs
    cases hahead : cs.drop (gapWidth false cs) with
    | nil =>
      rw [tokensFrom_of_nil hahead, Nat.le_antisymm hgap (List.drop_eq_nil_iff.1 hahead)]
    | cons c rest =>
      have hline : IsLine (c :: rest) := hahead ▸ hcs.drop _
      have hlen : (c :: rest).length = cs.length - gapWidth false cs := by
        rw [← hahead, List.length_drop]
      have hplain := plain_lexeme (hline c List.mem_cons_self).1 rest
      have hwidth := hplain.inline.1
      have hlt := length_drop_lexeme (List.cons_ne_nil c rest)
      rw [tokensFrom_of_cons hahead]
      show (tokensFrom _ _).finish = _
      rw [ih _ (by omega) (hline.drop _) _ rfl, Position.after, if_neg hplain.kind.1,
        Position.right_right, Position.right_right, List.length_drop]
      congr 1
      omega

/-- **The tokens of a line do not depend on what follows it,** nor do those of what follows depend
on the line, except for their places. -/
theorem tokensFrom_line (hcs : IsLine cs) (hds : Edge ds)
    (hs : ds.head? = some '#' → (zoneAfter .code cs []).isString = false) (p : Position) :
    tokensFrom p (cs ++ ds) =
      (tokensFrom (p.right cs.length) ds).behind (tokensFrom p cs).tokens := by
  have hapart : ReadsApart (fun cs => IsLine cs ∧
      (ds.head? = some '#' → (zoneAfter .code cs []).isString = false)) ds := by
    refine ⟨fun cs h => gapWidth_edge h.1 hds false, fun cs c rest ⟨hcs, hs⟩ hahead => ?_⟩
    have hline : IsLine (c :: rest) := hahead ▸ hcs.drop _
    have hopen : gapWidth false (c :: rest) = 0 := hahead ▸ gapWidth_drop cs
    have hzone (h : ds.head? = some '#') : (zoneAfter .code (c :: rest) []).isString = false := by
      rw [← hahead, zoneAfter_drop_gap (by rw [hahead]; exact nofun)]
      exact hs h
    exact ⟨lexeme_edge hline hds hzone, hline.drop _,
      fun h => isString_drop_lexeme hopen (hzone h)⟩
  rw [hapart.tokensFrom ⟨hcs, hs⟩, finish_line hcs]

end Eligibility
