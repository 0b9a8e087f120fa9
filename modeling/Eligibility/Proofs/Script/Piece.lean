import Eligibility.Condition.Value
import Eligibility.Proofs.Decimal
import Eligibility.Proofs.Script.Scan

/-!
# Pieces of conditions

* `scan_identifier`, `IsKeyword`, `scan_keyword`, `scan_not`: words;
* `IsWord`, `spaced`, **`scan_phrase`**: keywords of several words;
* **`scan_operator`**, `scan_notIn`: operators;
* **`scan_int`**: numbers.
-/

namespace Eligibility

open Text TokenKind

variable {s : String} {ds : List Char}

/-! ## Words -/

theorem head?_name {cs : List Char} (h : isName cs = true) : cs.head?.any isWordStart = true := by
  cases cs with
  | nil => cases h
  | cons c cs => exact (isName_cons h).1

theorem scan_wordLexeme {cs : List Char} (h : cs.head?.any isWordStart = true) {k : TokenKind}
    {t : String} (hl : wordLexeme (cs ++ ds) = ⟨k, t, cs.length⟩) :
    scan (cs ++ ds) = (k, t) :: scan ds := by
  cases cs with
  | nil => cases h
  | cons c cs =>
    have hc : (c :: cs).head?.any isInk = true := isInk_of_isWordStart h
    refine scan_front hc ?_
    rw [← hl]
    exact lexeme_of_isWordStart h _

theorem scan_identifier (h : IsIdentifier s) (hd : Breaks ds) (hc : Calm ds) :
    scan (s.toList ++ ds) = (.identifier, s) :: scan ds := by
  have hl : wordLexeme (s.toList ++ ds) = ⟨.identifier, s, s.toList.length⟩ := by
    rw [wordLexeme_name h.isName hd]
    by_cases hdot : '.' ∈ s.toList
    · exact if_pos hdot
    · have hp : phrase? s (s.toList ++ ds) = none := by
        refine phrase?_eq_none fun p hp he => hc p hp fun hn => ?_
        exact h.upper_ne (w := "NOT") (by decide) (he.symm.trans hn)
      rw [if_neg hdot, hp, h.keyword?_eq_none hdot]; rfl
  exact scan_wordLexeme (head?_name h.isName) hl

/-- The text is a keyword that no keyword of several words starts with. -/
def IsKeyword (s : String) (k : TokenKind) : Prop :=
  isName s.toList = true ∧ '.' ∉ s.toList ∧ keyword? s = some k ∧ ∀ p ∈ phrases, p.1 ≠ upper s

instance (s : String) (k : TokenKind) : Decidable (IsKeyword s k) :=
  inferInstanceAs (Decidable (_ ∧ _ ∧ _ ∧ _))

theorem scan_keyword {k : TokenKind} (h : IsKeyword s k) (hd : Breaks ds) :
    scan (s.toList ++ ds) = (k, s) :: scan ds := by
  obtain ⟨hn, hdot, hk, hp⟩ := h
  have hl : wordLexeme (s.toList ++ ds) = ⟨k, s, s.toList.length⟩ := by
    rw [wordLexeme_name hn hd, if_neg hdot, phrase?_eq_none fun p hm he => absurd he (hp p hm), hk]
    rfl
  exact scan_wordLexeme (head?_name hn) hl

theorem scan_not (hd : Breaks ds) (hin : followWidth? ["IN"] ds = none) :
    scan ("NOT".toList ++ ds) = (.not, "NOT") :: scan ds := by
  have hp : phrase? "NOT" ("NOT".toList ++ ds) = none := by
    refine phrase?_eq_none fun p hp he => ?_
    have : ∀ p ∈ phrases, p.1 = upper "NOT" → p.2.1 = ["IN"] := by decide +kernel
    rw [this p hp he]; exact hin
  have hn : isName "NOT".toList = true := by decide +kernel
  have hdot : '.' ∉ "NOT".toList := by decide
  have hk : keyword? "NOT" = some .not := by decide +kernel
  have hl : wordLexeme ("NOT".toList ++ ds) = ⟨.not, "NOT", "NOT".toList.length⟩ := by
    rw [wordLexeme_name hn hd, if_neg hdot, hp, hk]; rfl
  exact scan_wordLexeme (head?_name hn) hl

/-! ## Keywords of several words -/

/-- A name does not start with a space. -/
theorem head_name (h : isName s.toList = true) (cs : List Char) :
    (s.toList ++ cs).head?.any isSpacing = false := by
  cases hs : s.toList with
  | nil => rw [hs] at h; cases h
  | cons d ds =>
    rw [hs] at h
    exact isSpacing_of_isInk (isInk_of_isWordStart (isName_cons h).1)

/-- The text is a keyword of one segment. -/
def IsWord (w : String) : Prop := isName w.toList = true ∧ '.' ∉ w.toList ∧ upper w = w

instance (w : String) : Decidable (IsWord w) := inferInstanceAs (Decidable (_ ∧ _ ∧ _))

theorem IsWord.firstWord {w : String} (h : IsWord w) (hd : Breaks ds) :
    firstWord (w.toList ++ ds) = w := by
  rw [firstWord_name h.1 hd, segment_of_no_dot h.2.1, String.ofList_toList, h.2.2]

theorem IsWord.wordWidth {w : String} (h : IsWord w) (hd : Breaks ds) :
    wordWidth (w.toList ++ ds) = w.toList.length := by
  rw [wordWidth_name h.1 hd, segment_of_no_dot h.2.1]

/-- Words, each after a space. -/
def spaced (ws : List String) : List Char := ws.flatMap fun w => ' ' :: w.toList

theorem breaks_spaced (ws : List String) (hd : Breaks ds) : Breaks (spaced ws ++ ds) := by
  cases ws with
  | nil => exact hd
  | cons v vs => exact breaks_space _

theorem followWidth?_spaced {ws : List String} (h : ∀ w ∈ ws, IsWord w) (hd : Breaks ds) :
    followWidth? ws (spaced ws ++ ds) = some (spaced ws).length := by
  induction ws with
  | nil => rfl
  | cons w ws ih =>
    obtain ⟨hw, hws⟩ := List.forall_mem_cons.1 h
    have hb := breaks_spaced ws hd
    have happend : spaced (w :: ws) ++ ds = ' ' :: (w.toList ++ (spaced ws ++ ds)) := by
      simp [spaced]
    have hlength : (spaced (w :: ws)).length = 1 + w.toList.length + (spaced ws).length := by
      simp only [spaced, List.flatMap_cons, List.length_append, List.length_cons]
      omega
    rw [happend, followWidth?_space (head_name hw.1 _), if_pos (hw.firstWord hb), hw.wordWidth hb,
      List.drop_left, ih hws, Option.map_some, hlength]

theorem followWidth?_ne {w v : String} {ws : List String} (hv : IsWord v) (hne : v ≠ w)
    (hd : Breaks ds) : followWidth? (w :: ws) (' ' :: (v.toList ++ ds)) = none := by
  rw [followWidth?_space (head_name hv.1 _), hv.firstWord hd, if_neg hne]

theorem isWord_phrases : ∀ p ∈ phrases, IsWord p.1 ∧ ∀ w ∈ p.2.1, IsWord w := by decide +kernel

/-- A keyword of several words, unless one before it in the list goes on as well. -/
theorem scan_phrase {i : Nat} {head : String} {tail : List String} {kind : TokenKind}
    (hp : phrases[i]? = some (head, tail, kind))
    (hs : s.toList = head.toList ++ spaced tail ∧ " ".intercalate (head :: tail) = s)
    (hpre : ∀ p ∈ phrases.take i, p.1 = head → followWidth? p.2.1 (spaced tail ++ ds) = none)
    (hd : Breaks ds) : scan (s.toList ++ ds) = (kind, s) :: scan ds := by
  obtain ⟨hh, ht⟩ := isWord_phrases _ (List.mem_of_getElem? hp)
  have hb := breaks_spaced tail hd
  have hphrase := phrase?_eq_some hp (by rw [hh.2.2]; exact hpre) hh.2.2.symm
    (followWidth?_spaced ht hd)
  rw [hs.2] at hphrase
  rw [hs.1]
  refine scan_wordLexeme ?_ ?_
  · have := head?_name hh.1
    cases hl : head.toList with
    | nil => rw [hl] at this; cases this
    | cons c cs => rw [hl] at this; exact this
  · rw [List.append_assoc, wordLexeme_name hh.1 hb, if_neg hh.2.1, hphrase, List.length_append]
    rfl

/-! ## Operators -/

theorem scan_operator (op : Operator) (hd : Breaks ds) :
    scan (op.symbol.toList ++ ds) = (.comparison op, op.symbol) :: scan ds := by
  have hpre {ps : List (String × List String × TokenKind)} {head : String} {cs : List Char}
      (h : ∀ p ∈ ps, p.1 ≠ head) : ∀ p ∈ ps, p.1 = head → followWidth? p.2.1 cs = none :=
    fun p hp e => absurd e (h p hp)
  cases op with
  | eq | neq | gt | gte | lt | lte =>
    refine scan_front rfl ?_
    obtain rfl | ⟨c, hc, cs, rfl⟩ := hd.eq_cons
    · rfl
    · simp only [breakers, List.mem_cons, List.not_mem_nil, or_false] at hc
      rcases hc with rfl | rfl | rfl | rfl | rfl | rfl <;> rfl
  | contains => exact scan_keyword (s := "CONTAINS") (by decide +kernel) hd
  | between => exact scan_keyword (s := "BETWEEN") (by decide +kernel) hd
  | isIn => exact scan_keyword (s := "IN") (by decide +kernel) hd
  | isEmpty => exact scan_phrase (i := 0) rfl (by decide) (hpre (by decide)) hd
  | isNotEmpty =>
    refine scan_phrase (i := 1) rfl (by decide) ?_ hd
    have hnot : IsWord "NOT" := by decide +kernel
    have hskip :
        followWidth? ["EMPTY"] (' ' :: ("NOT".toList ++ (spaced ["EMPTY"] ++ ds))) = none :=
      followWidth?_ne hnot (by decide) (breaks_spaced ["EMPTY"] hd)
    have happend : spaced ["NOT", "EMPTY"] ++ ds =
        ' ' :: ("NOT".toList ++ (spaced ["EMPTY"] ++ ds)) := by
      simp only [spaced, List.flatMap_cons, List.cons_append, List.append_assoc]
    intro p hp _
    obtain rfl := List.mem_singleton.1 hp
    rw [happend]
    exact hskip
  | startsWith => exact scan_phrase (i := 3) rfl (by decide) (hpre (by decide)) hd
  | endsWith => exact scan_phrase (i := 4) rfl (by decide) (hpre (by decide)) hd

theorem scan_notIn (hd : Breaks ds) :
    scan ("NOT IN".toList ++ ds) = (.notIn, "NOT IN") :: scan ds := by
  refine scan_phrase (i := 2) rfl (by decide) ?_ hd
  have : ∀ p ∈ phrases.take 2, p.1 ≠ "NOT" := by decide
  exact fun p hp e => absurd e (this p hp)

/-! ## Numbers -/

theorem magnitudeWidth_front {cs : List Char} (h : cs.all Char.isDigit = true) (hd : Breaks ds) :
    magnitudeWidth (cs ++ ds) = cs.length := by
  rw [magnitudeWidth_append cs hd, magnitudeWidth_digits h]

theorem lexeme_numeral (negative : Bool) {cs : List Char} (h : cs.head?.any Char.isDigit = true)
    (hw : magnitudeWidth (cs ++ ds) = cs.length) :
    lexeme (Decimal.sign negative ++ cs ++ ds) =
      ⟨.number, .ofList (Decimal.sign negative ++ cs), (Decimal.sign negative ++ cs).length⟩ := by
  obtain ⟨c, cs, rfl⟩ := List.exists_cons_of_ne_nil (l := cs) (by rintro rfl; cases h)
  have hc : c.isDigit = true := h
  have hne (d : Char) (hd : d.isDigit = false) : c ≠ d := ne_of_kind hc hd
  cases negative
  · rw [Decimal.sign, if_neg Bool.false_ne_true, List.nil_append, List.cons_append] at *
    simp only [lexeme]
    rw [if_neg (hne _ rfl), if_neg (not_or.2 ⟨hne _ rfl, hne _ rfl⟩), if_pos hc, hw, Lexeme.slice,
      ← List.cons_append, List.take_left]
  · rw [Decimal.sign, if_pos rfl, List.singleton_append, List.cons_append, List.cons_append] at *
    simp only [lexeme]
    rw [if_neg (by decide), if_neg (by decide), if_neg (by decide), if_pos ⟨trivial, hc⟩, hw,
      Lexeme.slice, List.take_succ_cons, ← List.cons_append, List.take_left]
    rfl

theorem head?_numeral (negative : Bool) {cs : List Char} (h : cs.head?.any Char.isDigit = true) :
    (Decimal.sign negative ++ cs).head?.any isInk = true := by
  cases negative
  · obtain ⟨c, cs, rfl⟩ := List.exists_cons_of_ne_nil (l := cs) (by rintro rfl; cases h)
    exact isInk_of_isDigit h
  · rfl

theorem scan_int (i : Int) (hd : Breaks ds) :
    scan ((toString i).toList ++ ds) = (.number, toString i) :: scan ds := by
  have hw := magnitudeWidth_front (Decimal.all_isDigit_repr i.natAbs) hd
  have hhead := Decimal.head?_repr i.natAbs
  have htext := Decimal.toList_toString i
  refine scan_front ?_ ?_
  · rw [htext]
    exact head?_numeral _ hhead
  · rw [htext, lexeme_numeral _ hhead hw, ← htext, String.ofList_toList]

end Eligibility
