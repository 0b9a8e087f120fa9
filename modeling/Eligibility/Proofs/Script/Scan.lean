import Eligibility.Proofs.Identifier
import Eligibility.Proofs.Width

/-!
# Scanning pieces

A **piece** is a token without its place. The pieces of a text are those of its parts, given that no
part goes on into the next one.

* `Piece`, `scan`; `scan_space`, **`scan_front`**: one step;
* `Calm`: text that makes no keyword of several words out of the word before it;
* `wordLexeme_name`, `phrase?_eq_none`, `phrase?_eq_some`: words in front of such text.
-/

namespace Eligibility

open Text TokenKind

/-- A token without its place. -/
abbrev Piece := TokenKind × String

def Token.piece (t : Token) : Piece := (t.kind, t.text)

/-- The pieces of characters. -/
def scan (cs : List Char) : List Piece := (tokensFrom .first cs).tokens.map Token.piece

theorem tokens_tokensFrom (p : Position) (cs : List Char) :
    (tokensFrom p cs).tokens =
      let start := p.right (gapWidth false cs)
      let ahead := cs.drop (gapWidth false cs)
      if ahead = [] then []
      else ⟨(lexeme ahead).kind, (lexeme ahead).text, start⟩ ::
        (tokensFrom (start.after (lexeme ahead)) (ahead.drop (lexeme ahead).width)).tokens := by
  rw [tokensFrom]
  dsimp only
  split <;> rfl

/-- The pieces of a text do not depend on where it stands. -/
theorem map_piece_tokensFrom (p : Position) (cs : List Char) :
    (tokensFrom p cs).tokens.map Token.piece = scan cs := by
  have key : ∀ n (cs : List Char), cs.length = n → ∀ p q : Position,
      (tokensFrom p cs).tokens.map Token.piece = (tokensFrom q cs).tokens.map Token.piece := by
    intro n
    induction n using Nat.strongRecOn with
    | _ n ih =>
      intro cs hn p q
      rw [tokens_tokensFrom p, tokens_tokensFrom q]
      dsimp only
      split
      · rfl
      · rename_i h
        have hle : (cs.drop (gapWidth false cs)).length ≤ n := by
          rw [List.length_drop, hn]; exact Nat.sub_le ..
        have hlt := Nat.lt_of_lt_of_le (length_drop_lexeme h) hle
        rw [List.map_cons, List.map_cons, ih _ hlt _ rfl]
        rfl
  exact key _ cs rfl p .first

/-! ## One step -/

theorem scan_nil : scan [] = [] := by
  rw [scan, tokens_tokensFrom]; rfl

theorem scan_space (cs : List Char) : scan (' ' :: cs) = scan cs := by
  have hgap : gapWidth false (' ' :: cs) = gapWidth false cs + 1 := rfl
  rw [scan, scan, tokens_tokensFrom, tokens_tokensFrom, hgap]
  dsimp only
  rw [List.drop_succ_cons]
  split
  · rfl
  · rw [List.map_cons, List.map_cons, map_piece_tokensFrom, map_piece_tokensFrom]; rfl

/-- The first character of a token: neither a space nor the mark of a comment. -/
def isInk (c : Char) : Bool := !isGap c && c != '#'

theorem isSpacing_of_isInk {c : Char} (h : isInk c = true) : isSpacing c = false := by
  rw [isInk, isGap, Bool.and_eq_true, Bool.not_eq_true', Bool.or_eq_false_iff] at h
  exact h.1.1

theorem gapWidth_of_isInk {cs : List Char} (h : cs.head?.any isInk = true) :
    gapWidth false cs = 0 := by
  cases cs with
  | nil => rfl
  | cons c cs =>
    have hc : isInk c = true := h
    rw [isInk, Bool.and_eq_true, Bool.not_eq_true', bne_iff_ne] at hc
    simp [gapWidth, hc.1, hc.2]

theorem isInk_of_kind {p : Char → Bool} {c : Char} (h : p c = true)
    (hp : [' ', '\t', '\r', '#'].any p = false) : isInk c = true := by
  have hc := not_mem_of_kind h hp
  simp only [List.mem_cons, List.not_mem_nil, or_false, not_or] at hc
  simp [isInk, isGap, isSpacing, hc]

theorem isInk_of_isWordStart {c : Char} (h : isWordStart c = true) : isInk c = true :=
  isInk_of_kind h rfl

theorem isInk_of_isDigit {c : Char} (h : c.isDigit = true) : isInk c = true :=
  isInk_of_kind h rfl

theorem scan_lexeme {c : Char} (hc : isInk c = true) (cs : List Char) :
    scan (c :: cs) = ((lexeme (c :: cs)).kind, (lexeme (c :: cs)).text) ::
      scan ((c :: cs).drop (lexeme (c :: cs)).width) := by
  have hhead : (c :: cs).head?.any isInk = true := hc
  have hgap := gapWidth_of_isInk hhead
  rw [scan, tokens_tokensFrom, hgap]
  dsimp only
  rw [List.drop_zero, if_neg (List.cons_ne_nil _ _), List.map_cons, map_piece_tokensFrom]
  rfl

theorem scan_front {cs ds : List Char} (hc : cs.head?.any isInk = true) {k : TokenKind} {s : String}
    (hl : lexeme (cs ++ ds) = ⟨k, s, cs.length⟩) : scan (cs ++ ds) = (k, s) :: scan ds := by
  cases cs with
  | nil => cases hc
  | cons c cs =>
    rw [List.cons_append] at hl ⊢
    rw [scan_lexeme hc, hl]
    simp only [List.length_cons, List.drop_succ_cons, List.drop_left]

theorem scan_sign {c : Char} {ds : List Char} {k : TokenKind} {s : String} (hc : isInk c = true)
    (hl : lexeme (c :: ds) = ⟨k, s, 1⟩) : scan (c :: ds) = (k, s) :: scan ds := by
  have hfront : [c].head?.any isInk = true := hc
  have : scan ([c] ++ ds) = (k, s) :: scan ds := scan_front hfront hl
  exact this

theorem scan_newline (ds : List Char) : scan ('\n' :: ds) = (.newline, "\n") :: scan ds :=
  scan_sign rfl rfl

/-! ## What follows a piece -/

/-- The first word, in upper case. -/
def firstWord (cs : List Char) : String := upper (.ofList (cs.take (wordWidth cs)))

theorem followWidth?_space {w : String} {ws : List String} {cs : List Char}
    (hc : cs.head?.any isSpacing = false) :
    followWidth? (w :: ws) (' ' :: cs) =
      if firstWord cs = w then
        (followWidth? ws (cs.drop (wordWidth cs))).map (1 + wordWidth cs + ·)
      else none := by
  have hrun : runWidth isSpacing (' ' :: cs) = 1 := runWidth_append [' '] hc
  rw [followWidth?, hrun]
  by_cases hw : firstWord cs = w
  · rw [if_pos hw]; exact if_pos ⟨Nat.one_ne_zero, hw⟩
  · rw [if_neg hw]; exact if_neg fun h => hw h.2

theorem followWidth?_of_head {ws : List String} (hn : ws ≠ []) {cs : List Char}
    (hc : cs.head?.any isSpacing = false) : followWidth? ws cs = none := by
  cases ws with
  | nil => exact absurd rfl hn
  | cons w ws =>
    rw [followWidth?, runWidth_eq_zero hc]
    exact if_neg fun h => h.1 rfl

/-- Text that makes no keyword of several words out of the word before it, unless that is `NOT`. -/
def Calm (cs : List Char) : Prop := ∀ p ∈ phrases, p.1 ≠ "NOT" → followWidth? p.2.1 cs = none

theorem calm_of_head {cs : List Char} (hc : cs.head?.any isSpacing = false) : Calm cs := by
  intro p hp _
  have : ∀ p ∈ phrases, p.2.1 ≠ [] := by decide
  exact followWidth?_of_head (this p hp) hc

/-- After a space a word matters only if some keyword of several words goes on with it. -/
theorem calm_space {cs : List Char} (hc : cs.head?.any isSpacing = false)
    (hw : ∀ p ∈ phrases, p.1 ≠ "NOT" → p.2.1.head? ≠ some (firstWord cs)) : Calm (' ' :: cs) := by
  intro p hp hn
  have hne : ∀ p ∈ phrases, p.2.1 ≠ [] := by decide
  obtain ⟨w, ws, hws⟩ := List.exists_cons_of_ne_nil (hne p hp)
  have := hw p hp hn
  rw [hws] at this ⊢
  rw [followWidth?_space hc]
  exact if_neg fun e => this (congrArg some e.symm)

/-! ## Words -/

theorem lexeme_of_isWordStart {c : Char} (h : isWordStart c = true) (cs : List Char) :
    lexeme (c :: cs) = wordLexeme (c :: cs) := by
  have hne (d : Char) (hd : isWordStart d = false) : c ≠ d := ne_of_kind h hd
  have hdigit : ¬ c.isDigit = true := fun hd => by rw [isWordStart_of_isDigit hd] at h; cases h
  simp only [lexeme]
  rw [if_neg (hne _ rfl), if_neg (not_or.2 ⟨hne _ rfl, hne _ rfl⟩), if_neg hdigit,
    if_neg (fun h => hne _ rfl h.1), if_pos h]

theorem takeWhile_isWordChar {cs ds : List Char} (h : tailWidth cs = cs.length)
    (hd : Breaks ds) : (cs ++ ds).takeWhile isWordChar = cs.takeWhile (· != '.') := by
  induction cs with
  | nil =>
    cases ds with
    | nil => rfl
    | cons d ds =>
      have hw : isWordChar d = false := hd.head?_any (p := isWordChar) (by decide)
      simp [hw]
  | cons c cs ih =>
    rw [tailWidth] at h
    split at h
    · rename_i hc
      rw [List.cons_append, List.takeWhile_cons, List.takeWhile_cons, ih (Nat.succ.inj h)]
      by_cases hw : isWordChar c = true
      · have : c ≠ '.' := fun e => by rw [e] at hw; cases hw
        simp [hw, this]
      · rw [Bool.not_eq_true] at hw
        rw [hw, Bool.false_or, Bool.and_eq_true, beq_iff_eq] at hc
        rw [hw]
        simp [hc.1]
    · cases h

/-- The first segment of a name. -/
def segment (s : String) : List Char := s.toList.takeWhile (· != '.')

theorem wordWidth_name {s : String} (h : isName s.toList = true) {ds : List Char}
    (hd : Breaks ds) : wordWidth (s.toList ++ ds) = (segment s).length := by
  obtain ⟨c, cs, hs⟩ : ∃ c cs, s.toList = c :: cs := by
    refine List.exists_cons_of_ne_nil fun e => ?_
    rw [e] at h; cases h
  have hw := tailWidth_of_isName h
  rw [segment, ← takeWhile_isWordChar hw hd]
  rw [hs] at h ⊢
  exact wordWidth_eq_runWidth (isName_cons h).1 _

theorem firstWord_name {s : String} (h : isName s.toList = true) {ds : List Char}
    (hd : Breaks ds) : firstWord (s.toList ++ ds) = upper (.ofList (segment s)) := by
  obtain ⟨t, ht⟩ := List.takeWhile_prefix (l := s.toList) (· != '.')
  rw [firstWord, wordWidth_name h hd]
  change _ ++ _ = _ at ht
  rw [← ht, List.append_assoc, segment, List.take_left]

theorem segment_of_no_dot {s : String} (h : '.' ∉ s.toList) : segment s = s.toList := by
  have : (s.toList ++ []).takeWhile (· != '.') = s.toList ++ [].takeWhile (· != '.') := by
    apply List.takeWhile_append_of_pos
    intro c hc
    rw [bne_iff_ne]
    exact fun e => h (e ▸ hc)
  rwa [List.append_nil, List.takeWhile_nil, List.append_nil] at this

theorem wordLexeme_name {s : String} (h : isName s.toList = true) {ds : List Char}
    (hd : Breaks ds) :
    wordLexeme (s.toList ++ ds) =
      if '.' ∈ s.toList then ⟨.identifier, s, s.toList.length⟩
      else (phrase? s (s.toList ++ ds)).getD
        ⟨(keyword? s).getD .identifier, s, s.toList.length⟩ := by
  have htail : tailWidth (s.toList ++ ds) = s.toList.length := by
    rw [tailWidth_append _ hd, tailWidth_of_isName h]
  have hslice (k : TokenKind) : Lexeme.slice k s.toList.length (s.toList ++ ds) =
      ⟨k, s, s.toList.length⟩ := by
    rw [Lexeme.slice, List.take_left, String.ofList_toList]
  simp only [wordLexeme, htail, wordWidth_name h hd]
  by_cases hdot : '.' ∈ s.toList
  · have : s.toList.length ≠ (segment s).length := by
      intro e
      have hp : segment s <+: s.toList := List.takeWhile_prefix _
      have hm := hp.eq_of_length e.symm
      rw [← hm] at hdot
      cases List.all_eq_true.1 (List.all_takeWhile (p := (· != '.'))) _ hdot
    rw [if_pos this, if_pos hdot, hslice]
  · rw [segment_of_no_dot hdot, if_neg (not_not_intro rfl), if_neg hdot, List.take_left,
      String.ofList_toList, hslice]

theorem phrase?_front (s : String) (ds : List Char) :
    phrase? s (s.toList ++ ds) = phrases.findSome? fun p =>
      if p.1 = upper s then
        (followWidth? p.2.1 ds).map fun n =>
          ⟨p.2.2, " ".intercalate (p.1 :: p.2.1), s.toList.length + n⟩
      else none := by
  rw [phrase?, ← String.length_toList, List.drop_left]

theorem phrase?_eq_none {s : String} {ds : List Char}
    (h : ∀ p ∈ phrases, p.1 = upper s → followWidth? p.2.1 ds = none) :
    phrase? s (s.toList ++ ds) = none := by
  rw [phrase?_front, List.findSome?_eq_none_iff]
  intro p hp
  by_cases he : p.1 = upper s
  · rw [if_pos he, h p hp he]; rfl
  · exact if_neg he

theorem phrase?_eq_some {s head : String} {tail : List String} {kind : TokenKind}
    {i : Nat} {ds : List Char} {n : Nat} (hp : phrases[i]? = some (head, tail, kind))
    (hpre : ∀ p ∈ phrases.take i, p.1 = upper s → followWidth? p.2.1 ds = none)
    (hs : head = upper s) (hf : followWidth? tail ds = some n) :
    phrase? s (s.toList ++ ds) =
      some ⟨kind, " ".intercalate (head :: tail), s.toList.length + n⟩ := by
  obtain ⟨hi, hp⟩ := List.getElem?_eq_some_iff.1 hp
  have hsplit : phrases = phrases.take i ++ (head, tail, kind) :: phrases.drop (i + 1) := by
    rw [← hp, ← List.drop_eq_getElem_cons, List.take_append_drop]
  rw [phrase?_front, hsplit, List.findSome?_append, List.findSome?_eq_none_iff.2, Option.none_or,
    List.findSome?_cons, if_pos hs, hf]
  · rfl
  · intro p hm
    by_cases he : p.1 = upper s
    · rw [if_pos he, hpre p hm he]; rfl
    · exact if_neg he

end Eligibility
