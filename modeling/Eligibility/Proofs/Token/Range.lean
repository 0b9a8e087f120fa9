import Eligibility.Proofs.Identifier
import Eligibility.Proofs.Width
import Eligibility.Token.Stream

/-!
# Ranges of tokens

A token takes a range of characters of its text.

* `Inline`: a width within the text and within its line, with one lemma for each scanner;
* `Follows`, **`IsPhrase`**: how the words of a keyword of several words are written;
* `Token.Spells`: a token is the text of its range, or the keyword that its range writes;
* `Lexeme.Plain`, **`plain_lexeme`**: what the token at the front takes.
-/

namespace Eligibility

open Text TokenKind

variable {cs ds : List Char}

/-! ## Widths within a line -/

/-- The first `n` characters exist and have no line feed. -/
def Inline (n : Nat) (cs : List Char) : Prop := n ≤ cs.length ∧ '\n' ∉ cs.take n

theorem inline_zero (cs : List Char) : Inline 0 cs := ⟨Nat.zero_le _, List.not_mem_nil⟩

theorem Inline.add {m n : Nat} (hm : Inline m cs) (hn : Inline n (cs.drop m)) :
    Inline (m + n) cs := by
  obtain ⟨hlm, htm⟩ := hm
  obtain ⟨hln, htn⟩ := hn
  rw [List.length_drop] at hln
  refine ⟨by omega, ?_⟩
  rw [List.take_add, List.mem_append, not_or]
  exact ⟨htm, htn⟩

theorem Inline.cons {c : Char} {n : Nat} (hc : c ≠ '\n') (h : Inline n cs) :
    Inline (n + 1) (c :: cs) := by
  refine ⟨Nat.succ_le_succ h.1, ?_⟩
  rw [List.take_succ_cons, List.mem_cons, not_or]
  exact ⟨hc.symm, h.2⟩

theorem take_runWidth (p : Char → Bool) (cs : List Char) :
    cs.take (runWidth p cs) = cs.takeWhile p :=
  (List.prefix_iff_eq_take.1 (List.takeWhile_prefix p)).symm

theorem inline_runWidth {p : Char → Bool} (hp : p '\n' = false) (cs : List Char) :
    Inline (runWidth p cs) cs := by
  refine ⟨runWidth_le p cs, fun hm => ?_⟩
  rw [take_runWidth] at hm
  have := List.all_eq_true.1 List.all_takeWhile _ hm
  rw [hp] at this
  cases this

theorem inline_wordWidth (cs : List Char) : Inline (wordWidth cs) cs := by
  cases cs with
  | nil => exact inline_zero _
  | cons c cs =>
    rw [wordWidth]
    split
    · rename_i hc
      exact (inline_runWidth rfl cs).cons (ne_of_kind hc rfl)
    · exact inline_zero _

theorem inline_tailWidth (cs : List Char) : Inline (tailWidth cs) cs := by
  induction cs with
  | nil => exact inline_zero _
  | cons c cs ih =>
    rw [tailWidth]
    split
    · rename_i hc
      have hne : c ≠ '\n' := by rintro rfl; cases hc
      exact ih.cons hne
    · exact inline_zero _

theorem inline_fractionWidth (cs : List Char) : Inline (fractionWidth cs) cs := by
  unfold fractionWidth
  split
  · rename_i cs
    split
    · exact inline_zero _
    · exact (inline_runWidth rfl cs).cons (by decide)
  · exact inline_zero _

theorem inline_magnitudeWidth (cs : List Char) : Inline (magnitudeWidth cs) cs :=
  (inline_runWidth rfl cs).add (inline_fractionWidth _)

/-- A string ends within its line. The character after a backslash is the quote, and so it is no
line feed either. -/
theorem inline_quotedWidth {quote : Char} (hq : quote ≠ '\n') {escaped : Bool}
    (h : escaped = true → cs.head? = some quote) : Inline (quotedWidth quote escaped cs) cs := by
  induction cs generalizing escaped with
  | nil => exact inline_zero _
  | cons c cs ih =>
    rw [quotedWidth]
    split
    · rename_i he
      have hc : c ≠ '\n' := by rw [Option.some.inj (h he)]; exact hq
      have hrest : Inline (quotedWidth quote false cs) cs := ih nofun
      exact hrest.cons hc
    split
    · exact inline_zero _
    rename_i hc
    split
    · exact (inline_zero cs).cons hc
    · refine (ih fun he => ?_).cons hc
      rw [Bool.and_eq_true, beq_iff_eq, beq_iff_eq] at he
      exact he.2

/-! ## Keywords of several words -/

/-- The text has the words, each after at least one space or tab and in any letter case. -/
inductive Follows : List String → List Char → Prop
  | nil : Follows [] []
  | cons {w : String} {ws : List String} {spaces word cs : List Char} (hne : spaces ≠ [])
      (hspaces : ∀ c ∈ spaces, c = ' ' ∨ c = '\t') (hword : upper (.ofList word) = w)
      (h : Follows ws cs) : Follows (w :: ws) (spaces ++ (word ++ cs))

/-- The text has the words, with spaces or tabs between them and in any letter case. -/
def IsPhrase (head : String) (tail : List String) (cs : List Char) : Prop :=
  ∃ word rest, cs = word ++ rest ∧ upper (.ofList word) = head ∧ Follows tail rest

theorem mem_takeWhile_isSpacing {c : Char} (h : c ∈ cs.takeWhile isSpacing) :
    c = ' ' ∨ c = '\t' := by
  have := List.all_eq_true.1 List.all_takeWhile _ h
  rwa [isSpacing, Bool.or_eq_true, beq_iff_eq, beq_iff_eq] at this

theorem followWidth?_spec {ws : List String} {n : Nat} (h : followWidth? ws cs = some n) :
    Inline n cs ∧ Follows ws (cs.take n) := by
  induction ws generalizing cs n with
  | nil =>
    cases h
    exact ⟨inline_zero cs, .nil⟩
  | cons w ws ih =>
    rw [followWidth?] at h
    split at h
    · rename_i hw
      obtain ⟨m, hm, rfl⟩ := Option.map_eq_some_iff.1 h
      obtain ⟨hin, hfollows⟩ := ih hm
      have hspaces := take_runWidth isSpacing cs
      refine ⟨((inline_runWidth rfl cs).add (inline_wordWidth _)).add ?_, ?_⟩
      · rwa [← List.drop_drop]
      · rw [List.take_add, List.take_add, List.append_assoc, ← List.drop_drop]
        refine .cons ?_ ?_ hw.2 hfollows
        · rw [hspaces]
          exact fun e => hw.1 (List.length_eq_zero_iff.2 e)
        · rw [hspaces]
          exact fun c => mem_takeWhile_isSpacing
    · cases h

theorem length_ofList_take {n : Nat} (h : Inline n cs) :
    (String.ofList (cs.take n)).length = n := by
  rw [String.length_ofList, List.length_take, Nat.min_eq_left h.1]

theorem phrase?_spec {n : Nat} (hn : Inline n cs) {l : Lexeme}
    (h : phrase? (.ofList (cs.take n)) cs = some l) :
    Inline l.width cs ∧ ∃ p ∈ phrases, l.kind = p.2.2 ∧ l.text = " ".intercalate (p.1 :: p.2.1) ∧
      IsPhrase p.1 p.2.1 (cs.take l.width) := by
  obtain ⟨p, hp, hl⟩ := List.exists_of_findSome?_eq_some h
  simp only [Option.ite_none_right_eq_some, Option.map_eq_some_iff, length_ofList_take hn] at hl
  obtain ⟨hhead, m, hm, rfl⟩ := hl
  obtain ⟨hin, hfollows⟩ := followWidth?_spec hm
  refine ⟨hn.add hin, p, hp, rfl, rfl, cs.take n, _, ?_, hhead.symm, hfollows⟩
  exact List.take_add

/-! ## The token at the front -/

/-- A token stands for its range: a keyword of several words for its words, every other token for
the characters as they are. -/
def Token.Spells (t : Token) (cs : List Char) : Prop :=
  if t.kind ∈ phrases.map (·.2.2) then
    ∃ p ∈ phrases, t.kind = p.2.2 ∧ t.text = " ".intercalate (p.1 :: p.2.1) ∧ IsPhrase p.1 p.2.1 cs
  else t.text = .ofList cs

/-- A lexeme on one line that is the characters taken or a keyword of several words. -/
structure Lexeme.Plain (l : Lexeme) (cs : List Char) : Prop where
  inline : Inline l.width cs
  kind : l.kind ≠ .newline ∧ l.kind ≠ .eof
  spells : ∀ p, (⟨l.kind, l.text, p⟩ : Token).Spells (cs.take l.width)

theorem plain_slice {k : TokenKind} {n : Nat} (hn : Inline n cs)
    (hk : k ≠ .newline ∧ k ≠ .eof ∧ k ∉ phrases.map (·.2.2)) : (Lexeme.slice k n cs).Plain cs := by
  refine ⟨hn, ⟨hk.1, hk.2.1⟩, fun p => ?_⟩
  have htext : (Lexeme.slice k n cs).text = .ofList (cs.take n) := rfl
  exact (if_neg hk.2.2).mpr htext

/-- The kinds of single words. -/
def wordKinds : List TokenKind := .identifier :: keywords.map (·.2)

theorem keyword?_getD_mem (s : String) : (keyword? s).getD .identifier ∈ wordKinds := by
  cases h : keyword? s with
  | none => exact List.mem_cons_self
  | some k =>
    rw [keyword?, List.lookup_eq_some_iff] at h
    obtain ⟨l, r, hl, -⟩ := h
    have hm : (upper s, k) ∈ keywords := by rw [hl]; simp
    exact List.mem_cons_of_mem _ (List.mem_map_of_mem (f := (·.2)) hm)

theorem plain_wordLexeme (cs : List Char) : (wordLexeme cs).Plain cs := by
  unfold wordLexeme
  dsimp only
  split
  · exact plain_slice (inline_tailWidth cs) (by decide)
  · cases h : phrase? (.ofList (cs.take (wordWidth cs))) cs with
    | none =>
      have hall : ∀ k ∈ wordKinds, k ≠ .newline ∧ k ≠ .eof ∧ k ∉ phrases.map (·.2.2) := by decide
      exact plain_slice (inline_wordWidth cs) (hall _ (keyword?_getD_mem _))
    | some l =>
      obtain ⟨hin, p, hp, hkind, htext, hphrase⟩ := phrase?_spec (inline_wordWidth cs) h
      have hne : ∀ p ∈ phrases, p.2.2 ≠ .newline ∧ p.2.2 ≠ .eof := by decide
      refine ⟨hin, by rw [Option.getD_some, hkind]; exact hne p hp, fun q => ?_⟩
      have hmem : l.kind ∈ phrases.map (·.2.2) := hkind ▸ List.mem_map_of_mem hp
      rw [Token.Spells, Option.getD_some, if_pos hmem]
      exact ⟨p, hp, hkind, htext, hphrase⟩

theorem plain_symbolLexeme {c : Char} (hc : c ≠ '\n') (cs : List Char) :
    (symbolLexeme (c :: cs)).Plain (c :: cs) := by
  unfold symbolLexeme
  split
  · rename_i s kind hs
    have hmem := List.mem_of_find?_eq_some hs
    have hpre := List.find?_some hs
    obtain ⟨rest, hrest⟩ := List.isPrefixOf_iff_prefix.1 hpre
    have hall : ∀ p ∈ symbols, '\n' ∉ p.1 ∧ p.2 ≠ .newline ∧ p.2 ≠ .eof ∧
        p.2 ∉ phrases.map (·.2.2) := by decide
    refine plain_slice ⟨?_, ?_⟩ (hall _ hmem).2
    · rw [← hrest, List.length_append]
      exact Nat.le_add_right _ _
    · rw [← hrest, List.take_left]
      exact (hall _ hmem).1
  · exact plain_slice ((inline_zero cs).cons hc) (by decide)

theorem plain_lexeme {c : Char} (hc : c ≠ '\n') (cs : List Char) :
    (lexeme (c :: cs)).Plain (c :: cs) := by
  have hlexeme := isLexeme_lexeme c cs
  generalize lexeme (c :: cs) = l at hlexeme ⊢
  cases hlexeme with
  | newline h => exact absurd h hc
  | string =>
    have hquoted : Inline (quotedWidth c false cs) cs :=
      inline_quotedWidth hc fun h => absurd h Bool.false_ne_true
    exact plain_slice (hquoted.cons hc) (by decide)
  | number => exact plain_slice (inline_magnitudeWidth _) (by decide)
  | negative => exact plain_slice ((inline_magnitudeWidth _).cons hc) (by decide)
  | word => exact plain_wordLexeme _
  | symbol => exact plain_symbolLexeme hc cs

end Eligibility
