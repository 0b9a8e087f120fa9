import Mathlib.Data.List.TakeWhile
import Eligibility.Proofs.Script.Account
import Eligibility.Proofs.Token.Comment

/-!
# Scripts of blanks alone

The report on a blank script is empty, and its tokens are not read. If they were, there would still
be no rule and no error, but a warning of every blank that is no layout.

* `trimChars_eq_nil_iff`, `trim_eq_empty_iff`: texts that nothing is left of;
* `IsLayout`, `blankWarnings`: the blanks of gaps and line breaks, and the warnings of the others;
* `lexeme_of_isBlank`, `warnings_blanks`: one blank after the other;
* `Splits.strays`, `Report.ofTokens_strays`: a script without the keyword of a rule;
* **`Report.ofTokens_blank`**.
-/

namespace Eligibility

open Text

/-! ## Texts that nothing is left of -/

theorem trimChars_eq_nil_iff {cs : List Char} :
    trimChars cs = [] ↔ ∀ c ∈ cs, isBlank c = true := by
  rw [trimChars, List.reverse_eq_nil_iff, List.dropWhile_eq_nil_iff]
  constructor
  · intro h
    rw [← List.dropWhile_eq_nil_iff]
    by_contra hne
    -- What is left starts with a character that is no blank.
    have hhead := List.head_dropWhile_not isBlank hne
    rw [h _ (List.mem_reverse.2 (List.head_mem hne))] at hhead
    cases hhead
  · intro h c hc
    exact h c ((List.dropWhile_sublist _).subset (List.mem_reverse.1 hc))

theorem trim_eq_empty_iff {text : String} : trim text = "" ↔ isBlankText text = true := by
  rw [trim, isBlankText, List.all_eq_true, ← trimChars_eq_nil_iff, ← String.toList_inj,
    String.toList_ofList, String.toList_empty]

/-! ## Layout -/

/-- Gaps and line breaks are made of these characters. -/
def IsLayout (c : Char) : Prop := c ∈ [' ', '\t', '\r', '\n']

instance (c : Char) : Decidable (IsLayout c) := inferInstanceAs (Decidable (c ∈ _))

/-- The warnings of blanks that are no layout, each at its place, after the text `before`. -/
def blankWarnings (before : List Char) : List Char → List (Located Warning)
  | [] => []
  | c :: cs =>
    if IsLayout c then blankWarnings (before ++ [c]) cs
    else ⟨placeAfter before, .strayToken (.singleton c)⟩ :: blankWarnings (before ++ [c]) cs

theorem blankWarnings_eq_nil_iff {before cs : List Char} :
    blankWarnings before cs = [] ↔ ∀ c ∈ cs, IsLayout c := by
  induction cs generalizing before with
  | nil => simp [blankWarnings]
  | cons c cs ih => by_cases hc : IsLayout c <;> simp [blankWarnings, hc, ih]

theorem isLayout_iff {c : Char} : IsLayout c ↔ isGap c = true ∨ c = '\n' := by
  simp [IsLayout, isGap, isSpacing, or_assoc]

/-! ## Tokens -/

theorem isDigit_of_isBlank {c : Char} (h : isBlank c = true) : c.isDigit = false := by
  rcases isBlank_cases h with h | h
  · have hlisted : asciiBlanks.all (!·.isDigit) = true := by decide
    have := List.all_eq_true.1 hlisted c h
    rwa [Bool.not_eq_true'] at this
  · have hbig := le_toNat_of_blankRanges h
    rw [Bool.eq_false_iff]
    intro hdigit
    rw [Char.isDigit, Bool.and_eq_true, decide_eq_true_eq, decide_eq_true_eq] at hdigit
    have hsmall : c.toNat ≤ 57 := hdigit.2
    omega

theorem symbolLexeme_of_isBlank {c : Char} (h : isBlank c = true) (cs : List Char) :
    symbolLexeme (c :: cs) = ⟨.unknown, .singleton c, 1⟩ := by
  have hfind : symbols.find? (fun s => s.1.isPrefixOf (c :: cs)) = none := by
    rw [List.find?_eq_none]
    intro s hs hpre
    have hheads : ∀ s ∈ symbols, s.1.head?.any isBlank = false := by decide
    have hne : ∀ s ∈ symbols, s.1 ≠ [] := by decide
    have hhead : s.1.head? = some c := by
      obtain ⟨d, ds, hd⟩ := List.exists_cons_of_ne_nil (hne s hs)
      rw [hd, List.isPrefixOf, Bool.and_eq_true, beq_iff_eq] at hpre
      rw [hd, List.head?_cons, hpre.1]
    have hsymbol := hheads s hs
    rw [hhead, Option.any_some, h] at hsymbol
    cases hsymbol
  rw [symbolLexeme, hfind]
  rfl

/-- A blank that is no layout is a token of its own. -/
theorem lexeme_of_isBlank {c : Char} (h : isBlank c = true) (hc : c ≠ '\n') (cs : List Char) :
    lexeme (c :: cs) = ⟨.unknown, .singleton c, 1⟩ := by
  have hne {d : Char} (hd : isBlank d = false) : c ≠ d := by
    rintro rfl
    rw [h] at hd
    cases hd
  simp only [lexeme]
  rw [if_neg hc, if_neg (not_or.2 ⟨hne (by decide), hne (by decide)⟩),
    if_neg (by simp [isDigit_of_isBlank h]), if_neg fun hm => hne (by decide) hm.1,
    if_neg (by simp [isWordStart_of_isBlank h]), symbolLexeme_of_isBlank h]

theorem warnings_blanks {cs : List Char} (h : ∀ c ∈ cs, isBlank c = true) (before : List Char) :
    ((tokensFrom (placeAfter before) cs).tokens.filter (·.kind ≠ .newline)).map
        (fun t => ⟨t.position, .strayToken t.text⟩) = blankWarnings before cs := by
  induction cs generalizing before with
  | nil => rw [tokensFrom_nil]; rfl
  | cons c cs ih =>
    -- A blank is a line break, a gap that only moves the place, or else a token of its own.
    obtain ⟨hc, hcs⟩ := List.forall_mem_cons.1 h
    have hrest := ih hcs (before ++ [c])
    by_cases hn : c = '\n'
    · subst hn
      rw [placeAfter_newline] at hrest
      rw [tokensFrom_newline, blankWarnings, if_pos (by decide), ← hrest]
      rfl
    have hplace : placeAfter (before ++ [c]) = (placeAfter before).right 1 :=
      placeAfter_right before (by simpa using Ne.symm hn)
    rw [hplace] at hrest
    by_cases hgap : isGap c = true
    · have hwidth : gapWidth false ([c] ++ cs) = [c].length + gapWidth false cs := by
        simp [gapWidth, hgap, Nat.add_comm]
      have hskip := tokensFrom_gap hwidth (placeAfter before)
      rw [List.singleton_append] at hskip
      rw [hskip, blankWarnings, if_pos (isLayout_iff.2 (.inl hgap)), ← hrest]
      rfl
    · have hopen : gapWidth false ([c] ++ cs) = 0 := by
        have hsharp : c ≠ '#' := by
          rintro rfl
          exact absurd hc (by decide)
        simp [gapWidth, hgap, hsharp]
      have hk : TokenKind.unknown ≠ .newline := by decide
      have hfront := tokensFrom_front (List.cons_ne_nil c []) hopen hk
        (lexeme_of_isBlank hc hn cs) (placeAfter before)
      rw [List.singleton_append] at hfront
      rw [hfront, blankWarnings, if_neg (by simp [isLayout_iff, hgap, hn]), ← hrest]
      rfl

/-! ## Reports -/

/-- Where the keyword of a rule does not occur, all tokens but line breaks are stray. -/
theorem Splits.strays {ts : List Token} {items : List Item} {f : Option Failure}
    (h : Splits ts items f) (hts : ∀ t ∈ ts, t.kind ≠ .rule) :
    items = (ts.filter (·.kind ≠ .newline)).map .stray ∧ f = none := by
  induction h with
  | done hbs =>
    rw [hbs.filter_eq_nil]
    exact ⟨rfl, rfl⟩
  | @stray bs ts t items f hbs hk hr h ih =>
    obtain ⟨hitems, hnone⟩ := ih fun u hu => hts u (by simp [hu])
    rw [filter_lines hbs, List.filter_cons_of_pos (by simpa using hk), hitems]
    exact ⟨rfl, hnone⟩
  | rule hbs hr => exact absurd hr (hts _ (by simp))
  | fails hbs hr => exact absurd hr (hts _ (by simp))

namespace Report

/-- The report on a token stream without the keyword of a rule. -/
theorem ofTokens_strays {s : TokenStream} (h : ∀ t ∈ s.tokens, t.kind ≠ .rule) :
    ofTokens s = ⟨(s.tokens.filter (·.kind ≠ .newline)).map
      fun t => ⟨t.position, .strayToken t.text⟩, .ok []⟩ := by
  obtain ⟨hitems, hnone⟩ := (splits_readItems s.tokens).strays h
  have hread : readItems s.tokens =
      ((s.tokens.filter (·.kind ≠ .newline)).map .stray, none) := Prod.ext hitems hnone
  have hrules (ts : List Token) : (ts.map Item.stray).filterMap Item.rule? = [] := by
    rw [List.filterMap_map]
    exact List.filterMap_eq_nil_iff.2 fun _ _ => rfl
  have hwarnings (ts : List Token) : (ts.map Item.stray).filterMap Item.warning? =
      ts.map fun t => ⟨t.position, .strayToken t.text⟩ := by
    rw [List.filterMap_map]
    exact congrFun List.filterMap_eq_map' ts
  rw [ofTokens, hread]
  simp only [hrules, hwarnings]

variable {text : String}

/-- **A blank script is read as its tokens would be, but for warnings.** Its report is empty; that
on its tokens warns of the blanks that are no layout. -/
theorem ofTokens_blank (h : trim text = "") :
    ofText text = ⟨[], .ok []⟩ ∧
      ofTokens (tokenize text) = ⟨blankWarnings [] text.toList, .ok []⟩ ∧
      (ofTokens (tokenize text) = ofText text ↔ ∀ c ∈ text.toList, IsLayout c) := by
  have hblank := trim_eq_empty_iff.1 h
  have htext : ofText text = ⟨[], .ok []⟩ := by rw [ofText, if_pos hblank]
  have htokens : ofTokens (tokenize text) = ⟨blankWarnings [] text.toList, .ok []⟩ := by
    have hwarnings : _ = blankWarnings [] text.toList :=
      warnings_blanks (List.all_eq_true.1 hblank) []
    rw [ofTokens_strays fun t ht => kind_ne_rule_of_blank hblank ht, ← hwarnings]
    rfl
  refine ⟨htext, htokens, ?_⟩
  rw [htext, htokens, mk.injEq, and_iff_left rfl, blankWarnings_eq_nil_iff]

/-- A form feed and two wide spaces among layout. -/
def wideBlanks : String := " \x0c\t\r\n\u3000\n \u2003 "

theorem wideBlanks_read :
    trim wideBlanks = "" ∧ ofText wideBlanks = ⟨[], .ok []⟩ ∧
      ofTokens (tokenize wideBlanks) = ⟨[⟨⟨1, 2⟩, .strayToken "\x0c"⟩,
        ⟨⟨2, 1⟩, .strayToken "\u3000"⟩, ⟨⟨3, 2⟩, .strayToken "\u2003"⟩], .ok []⟩ ∧
      ofTokens (tokenize wideBlanks) ≠ ofText wideBlanks ∧
      ofTokens (tokenize "\n \t\r\n") = ofText "\n \t\r\n" := by
  have hblank : trim wideBlanks = "" := by decide +kernel
  obtain ⟨htext, htokens, hsame⟩ := ofTokens_blank hblank
  have hwarnings : blankWarnings [] wideBlanks.toList = [⟨⟨1, 2⟩, .strayToken "\x0c"⟩,
      ⟨⟨2, 1⟩, .strayToken "\u3000"⟩, ⟨⟨3, 2⟩, .strayToken "\u2003"⟩] := by decide +kernel
  have hwide : ¬ ∀ c ∈ wideBlanks.toList, IsLayout c := by
    intro h
    rw [← blankWarnings_eq_nil_iff, hwarnings] at h
    cases h
  have hlayout : ∀ c ∈ "\n \t\r\n".toList, IsLayout c := by
    simp [IsLayout]
  rw [hwarnings] at htokens
  exact ⟨hblank, htext, htokens, mt hsame.1 hwide,
    (ofTokens_blank (by decide +kernel)).2.2.2 hlayout⟩

/-- A space that breaks no line is blank, and yet its token would be warned of. -/
theorem noBreakSpace_stray :
    trim "\u00a0" = "" ∧ (ofText "\u00a0").warnings = [] ∧
      (ofTokens (tokenize "\u00a0")).warnings = [⟨⟨1, 1⟩, .strayToken "\u00a0"⟩] ∧
      ofTokens (tokenize "\u00a0") ≠ ofText "\u00a0" := by
  have hempty : (ofText "\u00a0").warnings = [] := by decide +kernel
  have hstray : (ofTokens (tokenize "\u00a0")).warnings =
      [⟨⟨1, 1⟩, .strayToken "\u00a0"⟩] := by decide +kernel
  refine ⟨by decide +kernel, hempty, hstray, fun h => ?_⟩
  rw [h, hempty] at hstray
  cases hstray

end Report

end Eligibility
