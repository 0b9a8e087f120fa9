import Eligibility.Proofs.Token.Number
import Eligibility.Proofs.Token.Layout

/-!
# Zones of a text

Read from its start, every place of a text is inside a string, inside a comment or in neither.

* `Zone`, `Zone.step`, **`zoneAfter`**: the zone behind some characters, given what follows them;
* `zoneAfter_gap`, **`zoneAfter_lexeme`**: a gap and a token each end outside strings and comments;
* `zoneAfter_inside_quoted`: inside the range of a string the zone is that of a string.
-/

namespace Eligibility

open Text TokenKind

variable {cs ds : List Char}

/-! ## Zones -/

/-- Where a character stands. -/
inductive Zone where
  /-- Outside strings and comments. -/
  | code
  /-- Behind an opening quote; `escaped` where a backslash takes the next quote along. -/
  | string (quote : Char) (escaped : Bool)
  | comment
  deriving DecidableEq

/-- At the end of its line every zone has ended. -/
def Zone.upTo (ahead : List Char) (z : Zone) : Zone :=
  if ahead.head? = some '\n' then .code else z

/-- The zone behind a character that stands in a zone, given what follows. -/
def Zone.step (c : Char) (ahead : List Char) (z : Zone) : Zone :=
  upTo ahead <| match z with
    | code =>
      if c = '"' ∨ c = '\'' then string c false
      else if c = '#' ∧ closesLine ahead = true then comment
      else code
    | string quote escaped =>
      if escaped then string quote false
      else if c = quote then code
      else string quote (c == '\\' && ahead.head? == some quote)
    | comment => comment

/-- The zone behind the characters `front`, given what follows. -/
def zoneAfter (z : Zone) : (front back : List Char) → Zone
  | [], _ => z
  | c :: front, back => zoneAfter (z.step c (front ++ back)) front back

theorem zoneAfter_append (z : Zone) (front mid back : List Char) :
    zoneAfter z (front ++ mid) back =
      zoneAfter (zoneAfter z front (mid ++ back)) mid back := by
  induction front generalizing z with
  | nil => rfl
  | cons c front ih => rw [List.cons_append, zoneAfter, zoneAfter, ih, List.append_assoc]

theorem Zone.upTo_code (ahead : List Char) : Zone.upTo ahead .code = .code := ite_self _

theorem Zone.upTo_of_ne (h : ds.head? ≠ some '\n') (z : Zone) : z.upTo ds = z := if_neg h

/-- The character opens neither a string nor a comment. -/
def isQuiet (c : Char) : Bool := c != '"' && c != '\'' && c != '#'

theorem Zone.step_quiet {c : Char} (hc : isQuiet c = true) (ahead : List Char) :
    Zone.code.step c ahead = .code := by
  simp only [isQuiet, Bool.and_eq_true, bne_iff_ne] at hc
  rw [step, if_neg (not_or.2 hc.1), if_neg fun h => hc.2 h.1, upTo_code]

theorem zoneAfter_quiet (h : ∀ c ∈ cs, isQuiet c = true) (back : List Char) :
    zoneAfter .code cs back = .code := by
  induction cs with
  | nil => rfl
  | cons c cs ih =>
    have hcs := List.forall_mem_cons.1 h
    rw [zoneAfter, Zone.step_quiet hcs.1, ih hcs.2]

/-! ## Gaps -/

theorem gapWidth_of_newline (h : ds.head? = some '\n') (inComment : Bool) :
    gapWidth inComment ds = 0 := by
  obtain ⟨ds, rfl⟩ := List.head?_eq_some_iff.1 h
  cases inComment <;> rfl

/-- The zone of a gap inside a comment or outside. -/
def Zone.ofGap (inComment : Bool) : Zone := if inComment then comment else code

/-- A comment is open where the line goes on and has no carriage return but one at its end. -/
def OpenIn (inComment : Bool) (cs : List Char) : Prop :=
  inComment = true → closesLine cs = true ∧ cs.head? ≠ some '\n'

theorem openIn_false (cs : List Char) : OpenIn false cs := nofun

theorem gapWidth_pos {c : Char} (h : OpenIn true (c :: cs)) : 0 < gapWidth true (c :: cs) := by
  have hc : c ≠ '\n' := fun e => (h rfl).2 (congrArg some e)
  by_cases hr : c = '\r'
  · rw [hr]
    exact Nat.succ_pos _
  · simp [gapWidth, hc, hr]

theorem gapWidth_step {b : Bool} {c : Char} (hpos : 0 < gapWidth b (c :: cs))
    (hb : OpenIn b (c :: cs)) :
    ∃ b', gapWidth b (c :: cs) = gapWidth b' cs + 1 ∧
      (Zone.ofGap b).step c cs = Zone.ofGap b' ∧ OpenIn b' cs := by
  by_cases hnext : cs.head? = some '\n'
  · refine ⟨false, ?_, ?_, openIn_false cs⟩
    · have hzero := gapWidth_of_newline hnext
      rw [gapWidth] at hpos ⊢
      split
      · rw [hzero, hzero]
      split
      · rfl
      split
      · rw [hzero, hzero]
      · rename_i h1 h2 h3
        rw [if_neg h1, if_neg h2, if_neg h3] at hpos
        exact absurd hpos (Nat.lt_irrefl 0)
    · exact if_pos hnext
  · unfold Zone.step
    rw [Zone.upTo_of_ne hnext]
    cases b with
    | true =>
      obtain ⟨hclose, hc⟩ := hb rfl
      have hc : c ≠ '\n' := fun e => hc (congrArg some e)
      rw [closesLine, if_neg hc] at hclose
      by_cases hr : c = '\r'
      · rw [if_pos hr, beq_iff_eq] at hclose
        exact absurd hclose hnext
      · rw [if_neg hr] at hclose
        exact ⟨true, by simp [gapWidth, hc, hr], rfl, fun _ => ⟨hclose, hnext⟩⟩
    | false =>
      rw [gapWidth, Bool.false_and, Bool.false_and, if_neg Bool.false_ne_true] at hpos ⊢
      by_cases hgap : isGap c = true
      · have hquiet : c ≠ '"' ∧ c ≠ '\'' ∧ c ≠ '#' := by
          rcases isGap_cases hgap with rfl | rfl | rfl <;> decide
        refine ⟨false, if_pos hgap, ?_, openIn_false cs⟩
        simp [Zone.ofGap, hquiet]
      · rw [if_neg hgap] at hpos ⊢
        by_cases hmark : (c == '#' && closesLine cs) = true
        · rw [if_pos hmark]
          rw [Bool.and_eq_true, beq_iff_eq] at hmark
          refine ⟨true, rfl, ?_, fun _ => ⟨hmark.2, hnext⟩⟩
          simp [Zone.ofGap, hmark]
        · rw [if_neg hmark] at hpos
          exact absurd hpos (Nat.lt_irrefl 0)

/-- A gap that is not the end of the text ends outside strings and comments. -/
theorem zoneAfter_gap {b : Bool} (hb : OpenIn b cs) (hne : cs.drop (gapWidth b cs) ≠ []) :
    zoneAfter (.ofGap b) (cs.take (gapWidth b cs)) (cs.drop (gapWidth b cs)) = .code := by
  induction cs generalizing b with
  | nil => exact absurd List.drop_nil hne
  | cons c cs ih =>
    by_cases hpos : 0 < gapWidth b (c :: cs)
    · obtain ⟨b', hwidth, hstep, hb'⟩ := gapWidth_step hpos hb
      rw [hwidth, List.drop_succ_cons] at hne
      rw [hwidth, List.take_succ_cons, List.drop_succ_cons, zoneAfter, List.take_append_drop, hstep]
      exact ih hb' hne
    · cases b with
      | true => exact absurd (gapWidth_pos hb) hpos
      | false =>
        rw [Nat.eq_zero_of_not_pos hpos]
        rfl

theorem gapWidth_append {b : Bool} {front back : List Char} (hb : OpenIn b (front ++ back))
    (hzone : zoneAfter (.ofGap b) front back = .code)
    (hle : front.length ≤ gapWidth b (front ++ back)) :
    gapWidth b (front ++ back) = front.length + gapWidth false back := by
  induction front generalizing b with
  | nil =>
    cases b with
    | true => cases hzone
    | false => exact (Nat.zero_add _).symm
  | cons c front ih =>
    rw [List.cons_append] at hb hle ⊢
    obtain ⟨b', hwidth, hstep, hb'⟩ := gapWidth_step (Nat.lt_of_lt_of_le (Nat.succ_pos _) hle) hb
    rw [zoneAfter, hstep] at hzone
    rw [hwidth, List.length_cons] at hle
    rw [hwidth, ih hb' hzone (Nat.le_of_succ_le_succ hle), List.length_cons]
    omega

/-! ## Strings -/

section String

variable {quote : Char} (hq : quote ≠ '\n')
include hq

theorem zoneAfter_quoted {escaped : Bool} (he : escaped = true → cs.head? = some quote)
    (hne : cs.drop (quotedWidth quote escaped cs) ≠ []) :
    zoneAfter ((Zone.string quote escaped).upTo cs) (cs.take (quotedWidth quote escaped cs))
      (cs.drop (quotedWidth quote escaped cs)) = .code := by
  induction cs generalizing escaped with
  | nil => exact absurd List.drop_nil hne
  | cons c cs ih =>
    rw [quotedWidth] at hne ⊢
    split at hne
    · rename_i hesc
      subst hesc
      have hc : (c :: cs).head? ≠ some '\n' := by rw [he rfl]; simpa using hq
      rw [if_pos rfl, Zone.upTo_of_ne hc, List.take_succ_cons, List.drop_succ_cons, zoneAfter,
        List.take_append_drop]
      exact ih (fun h => absurd h Bool.false_ne_true) hne
    rename_i hesc
    rw [Bool.not_eq_true] at hesc
    subst hesc
    rw [if_neg Bool.false_ne_true]
    split at hne
    · rename_i hc
      rw [if_pos hc]
      exact if_pos (congrArg some hc)
    rename_i hc
    rw [if_neg hc, Zone.upTo_of_ne (by simpa using hc)]
    split at hne
    · rename_i hcq
      rw [if_pos hcq, List.take_succ_cons, zoneAfter]
      simp [Zone.step, hcq, Zone.upTo_code, zoneAfter]
    · rename_i hcq
      rw [if_neg hcq, List.take_succ_cons, List.drop_succ_cons, zoneAfter, List.take_append_drop,
        Zone.step, if_neg Bool.false_ne_true, if_neg hcq]
      refine ih (fun hnext => ?_) hne
      rw [Bool.and_eq_true, beq_iff_eq, beq_iff_eq] at hnext
      exact hnext.2

theorem head?_of_quotedWidth_pos {escaped : Bool} (he : escaped = true → cs.head? = some quote)
    (hpos : 0 < quotedWidth quote escaped cs) : cs.head? ≠ some '\n' := by
  intro hn
  obtain ⟨cs, rfl⟩ := List.head?_eq_some_iff.1 hn
  cases escaped with
  | true => exact hq (Option.some.inj (he rfl)).symm
  | false => exact absurd hpos (Nat.lt_irrefl 0)

theorem zoneAfter_inside_quoted {escaped : Bool} {front back : List Char}
    (he : escaped = true → (front ++ back).head? = some quote)
    (hlt : front.length < quotedWidth quote escaped (front ++ back)) :
    zoneAfter ((Zone.string quote escaped).upTo (front ++ back)) front back ≠ .code := by
  have hpos := Nat.lt_of_le_of_lt (Nat.zero_le _) hlt
  rw [Zone.upTo_of_ne (head?_of_quotedWidth_pos hq he hpos)]
  induction front generalizing escaped with
  | nil => simp [zoneAfter]
  | cons c front ih =>
    have hgoesOn {e : Bool} (he : e = true → (front ++ back).head? = some quote)
        (hlt : front.length + 1 < quotedWidth quote e (front ++ back) + 1) :
        zoneAfter (Zone.upTo (front ++ back) (.string quote e)) front back ≠ .code := by
      have hlt := Nat.lt_of_succ_lt_succ hlt
      have hpos := Nat.lt_of_le_of_lt (Nat.zero_le _) hlt
      rw [Zone.upTo_of_ne (head?_of_quotedWidth_pos hq he hpos)]
      exact ih he hlt hpos
    rw [List.cons_append] at he hlt
    rw [quotedWidth] at hlt
    rw [zoneAfter, Zone.step]
    split at hlt
    · rename_i hesc
      rw [if_pos hesc]
      exact hgoesOn (fun h => absurd h Bool.false_ne_true) hlt
    rename_i hesc
    rw [if_neg hesc]
    split at hlt
    · exact absurd hlt (Nat.not_lt_zero _)
    split at hlt
    · exact absurd (Nat.lt_of_succ_lt_succ hlt) (Nat.not_lt_zero _)
    · rename_i hcq
      rw [if_neg hcq]
      refine hgoesOn (fun hnext => ?_) hlt
      rw [Bool.and_eq_true, beq_iff_eq, beq_iff_eq] at hnext
      exact hnext.2

end String

/-! ## Tokens -/

theorem mem_take_runWidth {p : Char → Bool} {c : Char} (h : c ∈ cs.take (runWidth p cs)) :
    p c = true := by
  rw [take_runWidth] at h
  exact List.all_eq_true.1 List.all_takeWhile _ h

theorem mem_take_wordWidth {c : Char} (h : c ∈ cs.take (wordWidth cs)) : isWordChar c = true := by
  cases cs with
  | nil => cases h
  | cons d cs =>
    rw [wordWidth] at h
    split at h
    · rename_i hd
      rw [List.take_succ_cons, List.mem_cons] at h
      rcases h with rfl | h
      · exact isWordChar_of_isWordStart hd
      · exact mem_take_runWidth h
    · cases h

theorem mem_take_tailWidth {c : Char} (h : c ∈ cs.take (tailWidth cs)) :
    isWordChar c = true ∨ c = '.' := by
  induction cs with
  | nil => cases h
  | cons d cs ih =>
    rw [tailWidth] at h
    split at h
    · rename_i hd
      rw [List.take_succ_cons, List.mem_cons] at h
      rcases h with rfl | h
      · rw [Bool.or_eq_true, Bool.and_eq_true, beq_iff_eq] at hd
        exact hd.imp_right And.left
      · exact ih h
    · cases h

theorem mem_take_followWidth? {ws : List String} {n : Nat} (h : followWidth? ws cs = some n)
    {c : Char} (hc : c ∈ cs.take n) : isWordChar c = true ∨ isSpacing c = true := by
  induction ws generalizing cs n with
  | nil =>
    cases h
    cases hc
  | cons w ws ih =>
    rw [followWidth?] at h
    split at h
    · obtain ⟨m, hm, rfl⟩ := Option.map_eq_some_iff.1 h
      rw [List.take_add, List.take_add, List.mem_append, List.mem_append] at hc
      rcases hc with (hc | hc) | hc
      · exact .inr (mem_take_runWidth hc)
      · exact .inl (mem_take_wordWidth hc)
      · exact ih hm (by rwa [List.drop_drop])
    · cases h

theorem mem_take_magnitudeWidth {c : Char} (h : c ∈ cs.take (magnitudeWidth cs)) :
    c.isDigit = true ∨ c = '.' := by
  rw [magnitudeWidth, List.take_add, List.mem_append] at h
  rcases h with h | h
  · exact .inl (mem_take_runWidth h)
  · generalize cs.drop _ = rest at h
    unfold fractionWidth at h
    split at h
    · split at h
      · cases h
      · rw [List.take_succ_cons, List.mem_cons] at h
        exact h.elim .inr fun h => .inl (mem_take_runWidth h)
    · cases h

/-- A word takes word characters and dots, or a keyword of several words. -/
theorem wordLexeme_cases (cs : List Char) :
    (wordLexeme cs).width = tailWidth cs ∨
      ∃ p ∈ phrases, ∃ n, followWidth? p.2.1 (cs.drop (wordWidth cs)) = some n ∧
        IsPhrase p.1 p.2.1 (cs.take (wordWidth cs + n)) ∧ tailWidth cs = wordWidth cs ∧
        wordLexeme cs = ⟨p.2.2, " ".intercalate (p.1 :: p.2.1), wordWidth cs + n⟩ := by
  unfold wordLexeme
  dsimp only
  split
  · exact .inl rfl
  rename_i hplain
  rw [ne_eq, Decidable.not_not] at hplain
  cases h : phrase? (.ofList (cs.take (wordWidth cs))) cs with
  | none => exact .inl hplain.symm
  | some l =>
    obtain ⟨p, hp, hl⟩ := List.exists_of_findSome?_eq_some h
    simp only [Option.ite_none_right_eq_some, Option.map_eq_some_iff,
      length_ofList_take (inline_wordWidth cs)] at hl
    obtain ⟨hhead, n, hn, rfl⟩ := hl
    exact .inr ⟨p, hp, n, hn, ⟨_, _, List.take_add, hhead.symm, (followWidth?_spec hn).2⟩, hplain,
      rfl⟩

theorem mem_take_wordLexeme {c : Char} (h : c ∈ cs.take (wordLexeme cs).width) :
    isWordChar c = true ∨ c = '.' ∨ isSpacing c = true := by
  obtain hw | ⟨p, -, n, hn, -, -, hw⟩ := wordLexeme_cases cs
  · rw [hw] at h
    exact (mem_take_tailWidth h).imp_right .inl
  · rw [hw, List.take_add, List.mem_append] at h
    rcases h with h | h
    · exact .inl (mem_take_wordWidth h)
    · exact (mem_take_followWidth? hn h).imp_right .inr

/-- What the token at the front takes: a string, a number, a word, or one or two signs. -/
theorem lexeme_cases (c : Char) (cs : List Char) :
    ((c = '"' ∨ c = '\'') ∧ (lexeme (c :: cs)).width = quotedWidth c false cs + 1) ∨
      (∀ d ∈ (c :: cs).take (lexeme (c :: cs)).width,
        d.isDigit = true ∨ d = '.' ∨ d = '-') ∨
      (isWordStart c = true ∧ lexeme (c :: cs) = wordLexeme (c :: cs)) ∨
      (c ≠ '"' ∧ c ≠ '\'') ∧
        ((lexeme (c :: cs)).width = 1 ∨
          (lexeme (c :: cs)).width = 2 ∧ cs.head? = some '=') := by
  have hlexeme := isLexeme_lexeme c cs
  generalize lexeme (c :: cs) = l at hlexeme ⊢
  cases hlexeme with
  | newline hc => exact .inr (.inr (.inr ⟨by subst hc; decide, .inl rfl⟩))
  | string hc => exact .inl ⟨hc, rfl⟩
  | number => exact .inr (.inl fun d hd => (mem_take_magnitudeWidth hd).imp_right .inl)
  | negative hc =>
    refine .inr (.inl fun d hd => ?_)
    rw [Lexeme.slice, List.take_succ_cons, List.mem_cons] at hd
    rcases hd with rfl | hd
    · exact .inr (.inr hc)
    · exact (mem_take_magnitudeWidth hd).imp_right .inl
  | word hc => exact .inr (.inr (.inl ⟨hc, rfl⟩))
  | symbol _ hq =>
    refine .inr (.inr (.inr ⟨hq, ?_⟩))
    unfold symbolLexeme
    split
    · rename_i s kind hs
      have hmem := List.mem_of_find?_eq_some hs
      have hpre := List.find?_some hs
      obtain ⟨rest, hrest⟩ := List.isPrefixOf_iff_prefix.1 hpre
      have hall : ∀ p ∈ symbols, p.1.length = 1 ∨ p.1.length = 2 ∧ p.1[1]? = some '=' := by
        decide
      refine (hall _ hmem).imp_right fun h => ⟨h.1, ?_⟩
      have hsecond : (c :: cs)[1]? = some '=' := by
        rw [← hrest, List.getElem?_append_left (by rw [h.1]; exact Nat.lt_succ_self 1)]
        exact h.2
      rwa [List.head?_eq_getElem?]
    · exact .inl rfl

theorem isQuiet_of_ne {p : Char → Bool} {c : Char} (h : p c = true)
    (hp : p '"' = false ∧ p '\'' = false ∧ p '#' = false) : isQuiet c = true := by
  simp [isQuiet, ne_of_kind h hp.1, ne_of_kind h hp.2.1, ne_of_kind h hp.2.2]

theorem zoneAfter_lexeme {c : Char} (hgap : gapWidth false (c :: cs) = 0)
    (hne : (c :: cs).drop (lexeme (c :: cs)).width ≠ []) :
    zoneAfter .code ((c :: cs).take (lexeme (c :: cs)).width)
      ((c :: cs).drop (lexeme (c :: cs)).width) = .code := by
  obtain ⟨hq, hw⟩ | hnumber | ⟨hc, hw⟩ | ⟨hq, hw⟩ := lexeme_cases c cs
  · rw [hw, List.drop_succ_cons] at hne
    have hline : c ≠ '\n' := by rcases hq with rfl | rfl <;> decide
    rw [hw, List.take_succ_cons, List.drop_succ_cons, zoneAfter, List.take_append_drop, Zone.step,
      if_pos hq]
    exact zoneAfter_quoted hline (fun h => absurd h Bool.false_ne_true) hne
  · refine zoneAfter_quiet (fun d hd => ?_) _
    rcases hnumber d hd with hd | rfl | rfl
    · exact isQuiet_of_ne hd (by decide)
    · rfl
    · rfl
  · refine zoneAfter_quiet (fun d hd => ?_) _
    rw [hw] at hd
    rcases mem_take_wordLexeme hd with hd | rfl | hd
    · exact isQuiet_of_ne hd (by decide)
    · rfl
    · exact isQuiet_of_ne hd (by decide)
  · have hstep : Zone.code.step c cs = .code := by
      have hmark : ¬ (c = '#' ∧ closesLine cs = true) := by
        rintro ⟨rfl, hclose⟩
        simp [gapWidth, isGap, isSpacing, hclose] at hgap
      rw [Zone.step, if_neg (not_or.2 hq), if_neg hmark, Zone.upTo_code]
    rcases hw with hw | ⟨hw, hnext⟩
    · rw [hw, List.take_succ_cons, List.take_zero, zoneAfter]
      exact hstep
    · obtain ⟨cs, rfl⟩ := List.head?_eq_some_iff.1 hnext
      rw [hw, List.take_succ_cons, List.take_succ_cons, List.take_zero, zoneAfter]
      exact (congrArg (zoneAfter · ['='] cs) hstep).trans
        (zoneAfter_quiet (List.forall_mem_singleton.2 rfl) cs)

end Eligibility
