import Eligibility.Proofs.Token.Comment

/-!
# Texts joined by line breaks

Texts that stand on separate lines have their tokens, one text after the other, unless a character
in them starts no token: a `#` behind which a carriage return ends the text opens a comment only
where a line feed follows.

* `gapWidth_newline`, `quotedWidth_newline`: gaps and strings in front of a line feed;
* **`tokensFrom_newline_append`**: the tokens of a text, and those of what follows a line feed;
* `Position.down`, `Token.move`, **`tokensFrom_down`**: the same text further down;
* `onLines`, `exists_tokens_onLines`: texts that each start a line.
-/

namespace Eligibility

variable {cs : List Char}

/-! ## In front of a line feed -/

theorem closesLine_newline (h : closesLine cs = true) (ds : List Char) :
    closesLine (cs ++ '\n' :: ds) = true := by
  induction cs with
  | nil => rfl
  | cons c cs ih =>
    rw [List.cons_append, closesLine]
    rw [closesLine] at h
    split
    · rfl
    rename_i hc
    rw [if_neg hc] at h
    split
    · rename_i hr
      rw [if_pos hr, beq_iff_eq] at h
      rw [List.head?_append, h]
      rfl
    · rename_i hr
      rw [if_neg hr] at h
      exact ih h

theorem gapWidth_newline {b : Bool} (h : (cs.drop (gapWidth b cs)).head? ≠ some '#')
    (ds : List Char) : gapWidth b (cs ++ '\n' :: ds) = gapWidth b cs := by
  induction cs generalizing b with
  | nil => exact gapWidth_of_newline rfl b
  | cons c cs ih =>
    rw [List.cons_append, gapWidth, gapWidth]
    rw [gapWidth] at h
    split
    · rename_i hc
      rw [if_pos hc] at h
      rw [ih h]
    rename_i hc
    rw [if_neg hc] at h
    split
    · rename_i hg
      rw [if_pos hg] at h
      rw [ih h]
    rename_i hg
    rw [if_neg hg] at h
    by_cases hc : c = '#'
    · have hclose : closesLine cs = true := by
        by_contra hopen
        rw [if_neg (by simp [hopen])] at h
        exact h (congrArg some hc)
      rw [if_pos (by simp [hc, hclose])] at h
      rw [if_pos (by simp [hc, closesLine_newline hclose]), if_pos (by simp [hc, hclose]), ih h]
    · rw [if_neg (by simp [hc]), if_neg (by simp [hc])]

theorem quotedWidth_newline {quote : Char} (hq : quote ≠ '\n') {escaped : Bool}
    (he : escaped = true → cs.head? = some quote) (ds : List Char) :
    quotedWidth quote escaped (cs ++ '\n' :: ds) = quotedWidth quote escaped cs := by
  induction cs generalizing escaped with
  | nil =>
    have hesc : escaped = false := Bool.eq_false_iff.2 fun h => nomatch he h
    subst hesc
    rfl
  | cons c cs ih =>
    rw [List.cons_append, quotedWidth, quotedWidth]
    split
    · rw [ih fun h => absurd h Bool.false_ne_true]
    split
    · rfl
    split
    · rfl
    have hpeek : ((cs ++ '\n' :: ds).head? == some quote) = (cs.head? == some quote) := by
      cases cs with
      | nil => exact beq_eq_false_iff_ne.2 fun h => hq (Option.some.inj h).symm
      | cons d cs => rfl
    rw [hpeek, ih fun h => ?_]
    rw [Bool.and_eq_true, beq_iff_eq, beq_iff_eq] at h
    exact h.2

/-- Outside comments a `#` starts no token. -/
theorem lexeme_sharp (cs : List Char) : (lexeme ('#' :: cs)).kind = .unknown := by
  have hstart : isWordStart '#' = false := by decide
  simp [lexeme, hstart, symbolLexeme, symbols, List.find?, List.isPrefixOf, Lexeme.slice]

/-! ## The tokens of a text and of what follows it -/

/-- Every character of the text is in a gap or in a token. -/
def Known (cs : List Char) : Prop :=
  ∃ p, ∀ t ∈ (tokensFrom p cs).tokens, t.kind ≠ .unknown

theorem readsApart_newline (ds : List Char) : ReadsApart Known ('\n' :: ds) := by
  have hfront {cs : List Char} {c : Char} {rest : List Char} (h : Known cs)
      (hahead : cs.drop (gapWidth false cs) = c :: rest) :
      (lexeme (c :: rest)).kind ≠ .unknown ∧
        Known ((c :: rest).drop (lexeme (c :: rest)).width) := by
    obtain ⟨p, h⟩ := h
    rw [tokensFrom_of_cons hahead] at h
    obtain ⟨hkind, hrest⟩ := List.forall_mem_cons.1 h
    exact ⟨hkind, _, hrest⟩
  constructor
  · intro cs h
    have hline : gapWidth false ('\n' :: ds) = 0 := gapWidth_of_newline rfl false
    rw [gapWidth_newline (fun hsharp => ?_), hline, Nat.add_zero]
    · split
      · assumption
      · rfl
    · obtain ⟨rest, hahead⟩ := List.head?_eq_some_iff.1 hsharp
      exact (hfront h hahead).1 (lexeme_sharp rest)
  · intro cs c rest h hahead
    refine ⟨lexeme_append (edge_newline ds) fun hq => ?_, (hfront h hahead).2⟩
    refine quotedWidth_newline ?_ (fun h => absurd h Bool.false_ne_true) ds
    rcases hq with rfl | rfl <;> decide

/-- **The tokens of a text in front of a line feed,** and those of what follows it. -/
theorem tokensFrom_newline_append (h : Known cs) (p : Position) (ds : List Char) :
    tokensFrom p (cs ++ '\n' :: ds) =
      (tokensFrom (tokensFrom p cs).finish ('\n' :: ds)).behind (tokensFrom p cs).tokens :=
  (readsApart_newline ds).tokensFrom h p

/-! ## Further down -/

/-- The place `n` lines further down. -/
def Position.down (n : Nat) (p : Position) : Position := ⟨n + p.line, p.column⟩

/-- The token at another place. -/
def Token.move (f : Position → Position) (t : Token) : Token := { t with position := f t.position }

theorem Position.after_down (n : Nat) (p : Position) (l : Lexeme) :
    (p.down n).after l = (p.after l).down n := by
  unfold after
  split <;> rfl

/-- **A text that starts on a later line has its tokens as many lines further down.** -/
theorem tokensFrom_down (n : Nat) (p : Position) (cs : List Char) :
    tokensFrom (p.down n) cs =
      ⟨(tokensFrom p cs).tokens.map (Token.move (Position.down n)),
        (tokensFrom p cs).finish.down n⟩ := by
  induction hn : cs.length using Nat.strongRecOn generalizing cs p with
  | _ m ih =>
    subst hn
    have hright (p : Position) : (p.down n).right (gapWidth false cs) =
        (p.right (gapWidth false cs)).down n := rfl
    cases hahead : cs.drop (gapWidth false cs) with
    | nil => rw [tokensFrom_of_nil hahead, tokensFrom_of_nil hahead, hright, List.map_nil]
    | cons c rest =>
      have hlen : (c :: rest).length ≤ cs.length := by
        rw [← hahead, List.length_drop]
        exact Nat.sub_le ..
      have hlt := length_drop_lexeme (List.cons_ne_nil c rest)
      rw [tokensFrom_of_cons hahead, tokensFrom_of_cons hahead, hright, Position.after_down,
        ih _ (by omega) _ _ rfl]
      rfl

/-! ## Texts that each start a line -/

/-- The texts, each after a line feed. -/
def onLines (texts : List String) : List Char := texts.flatMap fun text => '\n' :: text.toList

theorem toList_intercalate_newline (first : String) (texts : List String) :
    ("\n".intercalate (first :: texts)).toList = first.toList ++ onLines texts := by
  rw [String.toList_intercalate, List.map_cons]
  induction texts generalizing first with
  | nil => simp [onLines]
  | cons text texts ih =>
    rw [List.map_cons, List.intercalate_cons_cons, ih text]
    simp [onLines]

theorem exists_tokens_onLines (h : Known cs) (p : Position) (texts : List String) :
    ∃ q, (tokensFrom p (cs ++ onLines texts)).tokens =
      (tokensFrom p cs).tokens ++ (tokensFrom q (onLines texts)).tokens := by
  refine ⟨(tokensFrom p cs).finish, ?_⟩
  cases texts with
  | nil =>
    rw [onLines, List.flatMap_nil, List.append_nil, tokensFrom_nil, List.append_nil]
  | cons text texts =>
    show (tokensFrom p (cs ++ '\n' :: (text.toList ++ onLines texts))).tokens = _
    rw [tokensFrom_newline_append h]
    rfl

theorem exists_tokens_onLines_cons {text : String} (h : Known text.toList) (p : Position)
    (texts : List String) :
    ∃ q, (tokensFrom p (onLines (text :: texts))).tokens =
      ⟨.newline, "\n", p⟩ :: ((tokenize text).tokens.map (Token.move (Position.down p.line)) ++
        (tokensFrom q (onLines texts)).tokens) := by
  obtain ⟨q, hq⟩ := exists_tokens_onLines h p.nextLine texts
  have hplace : p.nextLine = Position.first.down p.line := rfl
  refine ⟨q, ?_⟩
  show (tokensFrom p ('\n' :: (text.toList ++ onLines texts))).tokens = _
  rw [tokensFrom_newline, tokenize]
  show ⟨.newline, "\n", p⟩ :: (tokensFrom p.nextLine _).tokens = _
  rw [hq, hplace, tokensFrom_down]

end Eligibility
