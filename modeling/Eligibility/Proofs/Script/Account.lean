import Eligibility.Proofs.Script.Failure
import Eligibility.Proofs.Token.Layout
import Eligibility.Proofs.Token.Number
import Mathlib.Data.List.Pairwise

/-!
# Every token is accounted for

* `Part`, `Part.IsWhole`: blocks and stray tokens;
* **`Accounts`**: the parts that hold the tokens of a script, block by block the rules;
* **`Warns`**: a warning for every stray token, and for no other one;
* `Splits.accounts`: the parts of a script that follows the grammar;
* `isWordStart_of_isBlank`, `kind_ne_rule_of_blank`: a blank script has no block;
* **`ofText_accounts`**: the tokens of a valid script are accounted for.
-/

namespace Eligibility

open Reader

/-! ## Parts -/

/-- A part of a script: a block, from its keyword and its name on, or a token outside the blocks. -/
inductive Part where
  | block (start name : Token) (body : List Token)
  | stray (t : Token)

namespace Part

def tokens : Part → List Token
  | block start name body => start :: name :: body
  | stray t => [t]

/-- The keyword and the name of a block. -/
def block? : Part → Option (Token × Token)
  | block start name _ => some (start, name)
  | stray _ => none

def stray? : Part → Option Token
  | block .. => none
  | stray t => some t

/-- A block starts with the keyword `RULE`, and its name is the very next token; there is no other
such keyword. -/
def IsWhole (ts : List Token) : Part → Prop
  | block start name body =>
    start.kind = .rule ∧ [start, name] <:+: ts ∧ ∀ t ∈ name :: body, t.kind ≠ .rule
  | stray t => t.kind ≠ .rule

end Part

/-- The parts hold the tokens in their order, except for line breaks, and the rules are those of the
blocks: there is one for every keyword `RULE`, with its name and line. -/
structure Accounts (ts : List Token) (rules : List Rule) (parts : List Part) : Prop where
  split : ts.filter (·.kind ≠ .newline) = parts.flatMap Part.tokens
  whole : ∀ p ∈ parts, p.IsWhole ts
  count : rules.length = ts.countP (·.kind = .rule)
  rules : rules.map (fun r => (r.name, r.startLine)) =
    (parts.filterMap Part.block?).map fun b => (b.2.content, b.1.position.line)

/-- A warning of a stray token. -/
def Warning.isStray : Warning → Bool
  | strayToken _ => true
  | noCondition _ => false

/-- Every stray token is warned of once, at its place and in order, and no token of a block is. -/
structure Warns (parts : List Part) (ws : List (Located Warning)) : Prop where
  strays : (ws.filter (·.cause.isStray)).map (fun w => (w.position, w.cause.message)) =
    (parts.filterMap Part.stray?).map fun t =>
      (t.position, "Unexpected token outside rule: " ++ t.text)
  quiet : ∀ start name body, .block start name body ∈ parts → ∀ t ∈ start :: name :: body,
    ∀ w ∈ ws, w.cause.isStray = true → w.position ≠ t.position

/-! ## The parts of a script -/

section Splits

variable {ts : List Token} {parts : List Part}

theorem Part.IsWhole.mono {us : List Token} {p : Part} (h : p.IsWhole ts) (hs : ts <:+ us) :
    p.IsWhole us := by
  cases p with
  | block start name body => exact ⟨h.1, h.2.1.trans hs.isInfix, h.2.2⟩
  | stray t => exact h

theorem Lines.filter_eq_nil {bs : List Token} (hbs : Lines bs) :
    bs.filter (·.kind ≠ .newline) = [] := by
  simpa [Lines] using hbs

theorem filter_lines {bs : List Token} (hbs : Lines bs) (ts : List Token) :
    (bs ++ ts).filter (·.kind ≠ .newline) = ts.filter (·.kind ≠ .newline) := by
  rw [List.filter_append, hbs.filter_eq_nil, List.nil_append]

/-- There is a block for every keyword. -/
theorem countP_parts (h : ∀ p ∈ parts, p.IsWhole ts) :
    (parts.flatMap Part.tokens).countP (·.kind = .rule) = (parts.filterMap Part.block?).length := by
  induction parts with
  | nil => rfl
  | cons p parts ih =>
    obtain ⟨hp, hparts⟩ := List.forall_mem_cons.1 h
    rw [List.flatMap_cons, List.countP_append, ih hparts]
    cases p with
    | block start name body =>
      have hrest : (name :: body).countP (·.kind = .rule) = 0 :=
        List.countP_eq_zero.2 fun t ht => by simpa using hp.2.2 t ht
      rw [List.filterMap_cons_some (f := Part.block?) rfl, Part.tokens,
        List.countP_cons_of_pos (by simpa using hp.1), hrest, List.length_cons]
      omega
    | stray t =>
      have hk : t.kind ≠ .rule := hp
      have hstray : [t].countP (·.kind = .rule) = 0 :=
        List.countP_eq_zero.2 fun u hu => by rw [List.mem_singleton.1 hu]; simpa using hk
      rw [List.filterMap_cons_none (f := Part.block?) rfl, Part.tokens, hstray, Nat.zero_add]

theorem countP_rule (ts : List Token) :
    (ts.filter (·.kind ≠ .newline)).countP (·.kind = .rule) = ts.countP (·.kind = .rule) := by
  rw [List.countP_filter]
  exact List.countP_congr fun t _ => by cases hk : t.kind <;> simp

theorem Splits.exists_parts {items : List Item} (h : Splits ts items none) :
    ∃ parts : List Part, ts.filter (·.kind ≠ .newline) = parts.flatMap Part.tokens ∧
      (∀ p ∈ parts, p.IsWhole ts) ∧
      (items.filterMap Item.rule?).map (fun r => (r.name, r.startLine)) =
        (parts.filterMap Part.block?).map (fun b => (b.2.content, b.1.position.line)) ∧
      ((items.filterMap Item.warning?).filter (·.cause.isStray)) =
        (parts.filterMap Part.stray?).map fun t => ⟨t.position, .strayToken t.text⟩ := by
  generalize hf : none = f at h
  induction h with
  | done hbs => exact ⟨[], hbs.filter_eq_nil, List.forall_mem_nil _, rfl, rfl⟩
  | @stray bs ts t items f hbs hk hr h ih =>
    obtain ⟨parts, hsplit, hwhole, hrules, hwarn⟩ := ih hf
    have hstray : (Part.stray t).IsWhole (bs ++ t :: ts) := hr
    refine ⟨.stray t :: parts, ?_, List.forall_mem_cons.2 ⟨hstray, fun p hp => ?_⟩, ?_, ?_⟩
    · rw [filter_lines hbs, List.filter_cons_of_pos (by simpa using hk), hsplit]
      rfl
    · exact (hwhole p hp).mono ⟨bs ++ [t], by simp⟩
    · rw [List.filterMap_cons_none (f := Item.rule?) rfl,
        List.filterMap_cons_none (f := Part.block?) rfl, hrules]
    · rw [List.filterMap_cons_some (f := Item.warning?) rfl,
        List.filterMap_cons_some (f := Part.stray?) rfl, List.filter_cons_of_pos rfl, hwarn]
      rfl
  | @rule bs ts rest t r items f hbs hr hb h ih =>
    obtain ⟨parts, hsplit, hwhole, hrules, hwarn⟩ := ih hf
    obtain ⟨name, us, rfl, hname, hus, hrname, hline⟩ := readBlock_ok hb
    refine ⟨.block t name (us.filter (·.kind ≠ .newline)) :: parts, ?_,
      List.forall_mem_cons.2 ⟨⟨hr, ⟨bs, us ++ rest, by simp⟩, ?_⟩, fun p hp => ?_⟩, ?_, ?_⟩
    · rw [filter_lines hbs, List.filter_cons_of_pos (by simp [hr]),
        List.filter_cons_of_pos (by simp [hname]), List.filter_append, hsplit]
      rfl
    · refine List.forall_mem_cons.2 ⟨hname ▸ nofun, fun u hu => ?_⟩
      exact (hus u (List.mem_filter.1 hu).1).1
    · exact (hwhole p hp).mono ⟨bs ++ t :: name :: us, by simp⟩
    · rw [List.filterMap_cons_some (f := Item.rule?) rfl,
        List.filterMap_cons_some (f := Part.block?) rfl, List.map_cons, List.map_cons, hrules,
        hrname, hline]
    · rw [List.filterMap_cons_none (f := Part.stray?) rfl, ← hwarn, List.filterMap_cons]
      cases hw : Item.warning? (.rule r) with
      | none => rfl
      | some w =>
        have hquiet : w.cause.isStray = false := by
          unfold Item.warning? at hw
          dsimp only at hw
          split at hw
          · cases hw; rfl
          · cases hw
        exact List.filter_cons_of_neg (by rw [hquiet]; exact nofun)
  | fails => cases hf

/-- **The tokens of a script that follows the grammar are accounted for.** -/
theorem Splits.accounts {items : List Item} (h : Splits ts items none) :
    ∃ parts, Accounts ts (items.filterMap Item.rule?) parts ∧
      ((items.filterMap Item.warning?).filter (·.cause.isStray)) =
        (parts.filterMap Part.stray?).map fun t => ⟨t.position, .strayToken t.text⟩ := by
  obtain ⟨parts, hsplit, hwhole, hrules, hwarn⟩ := h.exists_parts
  have hcount : (items.filterMap Item.rule?).length = ts.countP (·.kind = .rule) := by
    rw [← countP_rule, hsplit, countP_parts hwhole]
    simpa using congrArg List.length hrules
  exact ⟨parts, ⟨hsplit, hwhole, hcount, hrules⟩, hwarn⟩

end Splits

/-! ## Warnings -/

section Warns

variable {ts : List Token} {parts : List Part}

/-- The tokens of different parts stand at different places. -/
theorem position_ne (hsplit : ts.filter (·.kind ≠ .newline) = parts.flatMap Part.tokens)
    (hts : ts.Pairwise fun t u => t.position.Before u.position) {p q : Part} (hp : p ∈ parts)
    (hq : q ∈ parts) (hne : p ≠ q) {t u : Token} (ht : t ∈ p.tokens) (hu : u ∈ q.tokens) :
    t.position ≠ u.position := by
  have hall : (parts.flatMap Part.tokens).Pairwise fun t u => t.position ≠ u.position := by
    rw [← hsplit]
    exact (hts.imp fun h => h.ne).filter _
  have hparts := (List.pairwise_flatMap.1 hall).2
  have hsymm : Std.Symm fun p q : Part =>
      ∀ t ∈ p.tokens, ∀ u ∈ q.tokens, t.position ≠ u.position :=
    ⟨fun _ _ h u hu t ht => (h t ht u hu).symm⟩
  exact hparts.forall hp hq hne t ht u hu

theorem warns_of_strays {ws : List (Located Warning)}
    (hsplit : ts.filter (·.kind ≠ .newline) = parts.flatMap Part.tokens)
    (hts : ts.Pairwise fun t u => t.position.Before u.position)
    (hws : ws.filter (·.cause.isStray) =
      (parts.filterMap Part.stray?).map fun t => ⟨t.position, .strayToken t.text⟩) :
    Warns parts ws := by
  refine ⟨?_, fun start name body hp t ht w hw hstray => ?_⟩
  · rw [hws, List.map_map]
    exact List.map_congr_left fun t _ => rfl
  · have hmem : w ∈ ws.filter (·.cause.isStray) := List.mem_filter.2 ⟨hw, hstray⟩
    rw [hws] at hmem
    obtain ⟨u, hu, rfl⟩ := List.mem_map.1 hmem
    obtain ⟨q, hq, hqu⟩ := List.mem_filterMap.1 hu
    cases q with
    | block => cases hqu
    | stray v =>
      cases hqu
      exact position_ne hsplit hts hq hp nofun List.mem_cons_self ht

end Warns

/-! ## Blank scripts -/

section Blank

open Text

/-- The blanks of ASCII. -/
def asciiBlanks : List Char := ['\t', '\n', '\x0b', '\x0c', '\r', ' ']

/-- The ranges above ASCII that the other blanks lie in. -/
def blankRanges : List (Nat × Nat) :=
  [(0x85, 0xa0), (0x1680, 0x1680), (0x2000, 0x205f), (0x3000, 0x3000)]

theorem isBlank_cases {c : Char} (h : isBlank c = true) :
    c ∈ asciiBlanks ∨ inRanges blankRanges c = true := by
  have hlisted : ['\t', '\n', '\x0b', '\x0c', '\r', ' ', '\u0085', '\u00a0', '\u1680', '\u2028',
      '\u2029', '\u202f', '\u205f', '\u3000'].all (fun c =>
        c ∈ asciiBlanks || inRanges blankRanges c) = true := by decide +kernel
  rw [isBlank, Bool.or_eq_true, decide_eq_true_eq, Bool.and_eq_true, decide_eq_true_eq,
    decide_eq_true_eq] at h
  rcases h with h | ⟨hlow, hhigh⟩
  · have := List.all_eq_true.1 hlisted c h
    rwa [Bool.or_eq_true, decide_eq_true_eq] at this
  · have hlow : 0x2000 ≤ c.toNat := hlow
    have hhigh : c.toNat ≤ 0x200a := hhigh
    have hmem : (0x2000, 0x205f) ∈ blankRanges := by decide
    refine .inr (List.any_eq_true.2 ⟨_, hmem, ?_⟩)
    rw [Bool.and_eq_true, decide_eq_true_eq, decide_eq_true_eq]
    exact ⟨hlow, Nat.le_trans hhigh (by decide)⟩

theorem inRanges_of_apart {rs bs : List (Nat × Nat)}
    (h : ∀ r ∈ rs, ∀ b ∈ bs, r.2 < b.1 ∨ b.2 < r.1) {c : Char} (hc : inRanges bs c = true) :
    inRanges rs c = false := by
  obtain ⟨b, hb, hcb⟩ := List.any_eq_true.1 hc
  rw [inRanges, List.any_eq_false]
  intro r hr
  have := h r hr b hb
  simp only [Bool.and_eq_true, decide_eq_true_eq] at hcb ⊢
  omega

theorem letterRanges_apart : ∀ r ∈ letterRanges, ∀ b ∈ blankRanges, r.2 < b.1 ∨ b.2 < r.1 := by
  decide +kernel

theorem le_toNat_of_blankRanges {c : Char} (h : inRanges blankRanges c = true) :
    128 ≤ c.toNat := by
  have hranges : ∀ b ∈ blankRanges, 128 ≤ b.1 := by decide
  obtain ⟨b, hb, hcb⟩ := List.any_eq_true.1 h
  rw [Bool.and_eq_true, decide_eq_true_eq, decide_eq_true_eq] at hcb
  exact Nat.le_trans (hranges b hb) hcb.1

theorem isWordStart_of_isBlank {c : Char} (h : isBlank c = true) : isWordStart c = false := by
  rcases isBlank_cases h with h | h
  · have hlisted : asciiBlanks.all (!isWordStart ·) = true := by decide +kernel
    have := List.all_eq_true.1 hlisted c h
    rwa [Bool.not_eq_true'] at this
  · have hbig := le_toNat_of_blankRanges h
    have hletter : isLetter c = false := by
      have hwide : ¬ c.val < 128 := Nat.not_lt.2 hbig
      rw [isLetter, if_neg hwide, inRanges_of_apart letterRanges_apart h]
    have hscore : c ≠ '_' := by
      rintro rfl
      exact absurd hbig (by decide)
    rw [isWordStart, hletter, Bool.false_or]
    simpa using hscore

theorem lexeme_kind_ne_rule {c : Char} (h : isWordStart c = false) (cs : List Char) :
    (lexeme (c :: cs)).kind ≠ .rule := by
  have hlexeme := isLexeme_lexeme c cs
  generalize lexeme (c :: cs) = l at hlexeme ⊢
  cases hlexeme with
  | newline | string | number | negative => exact nofun
  | word hc =>
    rw [h] at hc
    cases hc
  | symbol =>
    have hall : ∀ k ∈ TokenKind.unknown :: symbols.map (·.2), k ≠ .rule := by decide
    exact hall _ (symbolLexeme_kind _)

theorem kind_ne_rule_of_blank {text : String} (h : isBlankText text = true) {t : Token}
    (ht : t ∈ (tokenize text).tokens) : t.kind ≠ .rule := by
  obtain ⟨ds, hds, hsuffix, hkind, -⟩ := mem_tokensFrom ht
  obtain ⟨c, cs, rfl⟩ := List.exists_cons_of_ne_nil hds
  have hblank : isBlank c = true := List.all_eq_true.1 h c (hsuffix.subset List.mem_cons_self)
  rw [hkind]
  exact lexeme_kind_ne_rule (isWordStart_of_isBlank hblank) cs

/-- All tokens of a blank script are stray. -/
theorem accounts_blank {text : String} (h : isBlankText text = true) :
    Accounts (tokenize text).tokens []
      (((tokenize text).tokens.filter (·.kind ≠ .newline)).map .stray) := by
  have hcount : (tokenize text).tokens.countP (·.kind = .rule) = 0 :=
    List.countP_eq_zero.2 fun t ht => by simpa using kind_ne_rule_of_blank h ht
  refine ⟨?_, fun p hp => ?_, hcount.symm, ?_⟩
  · rw [List.flatMap_map]
    exact (List.flatMap_singleton' _).symm
  · obtain ⟨t, ht, rfl⟩ := List.mem_map.1 hp
    exact kind_ne_rule_of_blank h (List.mem_filter.1 ht).1
  · have hblocks (us : List Token) : (us.map Part.stray).filterMap Part.block? = [] := by
      rw [List.filterMap_map]
      exact List.filterMap_eq_nil_iff.2 fun _ _ => rfl
    rw [hblocks]
    rfl

end Blank

/-! ## Reports -/

section Report

variable {text : String}

theorem rules_ofTokens {s : TokenStream} (h : (Report.ofTokens s).isValid = true) :
    (Report.ofTokens s).rules = (readItems s.tokens).1.filterMap Item.rule? := by
  have hnone := isValid_ofTokens.1 h
  unfold Report.rules Report.ofTokens
  generalize readItems s.tokens = r at hnone
  obtain ⟨items, f⟩ := r
  obtain rfl : f = none := hnone
  rfl

theorem warnings_ofTokens (s : TokenStream) :
    (Report.ofTokens s).warnings = (readItems s.tokens).1.filterMap Item.warning? := by
  unfold Report.ofTokens
  rfl

/-- **The tokens of a valid script are accounted for**, in the block of a rule or by a warning,
unless the script is blank. -/
theorem ofText_accounts (h : (Report.ofText text).isValid = true) :
    ∃ parts, Accounts (tokenize text).tokens (Report.ofText text).rules parts ∧
      if Text.isBlankText text then (Report.ofText text).warnings = []
      else Warns parts (Report.ofText text).warnings := by
  by_cases hblank : Text.isBlankText text = true
  · have hreport : Report.ofText text = ⟨[], .ok []⟩ := by rw [Report.ofText, if_pos hblank]
    rw [hreport]
    refine ⟨_, accounts_blank hblank, ?_⟩
    rw [if_pos hblank]
  · have hreport : Report.ofText text = Report.ofTokens (tokenize text) := by
      rw [Report.ofText, if_neg hblank]
    rw [hreport] at h ⊢
    rw [rules_ofTokens h, warnings_ofTokens]
    have hsplits := splits_readItems (tokenize text).tokens
    rw [isValid_ofTokens.1 h] at hsplits
    obtain ⟨parts, haccounts, hstrays⟩ := hsplits.accounts
    obtain ⟨hlaid, hfinish, -⟩ := tokensFrom_laid [] text.toList
    have heof : (tokenize text).eof.position = placeAfter ([] ++ text.toList) := hfinish
    have hplaces : (tokenize text).tokens.Pairwise fun t u => t.position.Before u.position :=
      (List.pairwise_append.1 (hlaid.pairwise heof)).1
    refine ⟨parts, haccounts, ?_⟩
    rw [if_neg hblank]
    exact warns_of_strays haccounts.split hplaces hstrays

/-- Two blocks among stray tokens: one ends in front of an operator, the other in front of a second
value. -/
def strayScript : String :=
  "herd\nRULE \"A\"\nWHEN HAS_ANY(herd, 1) = 2\n\nRULE 'B\\'s' ORDER: 1 2\nWHEN x = 1 )"

theorem strayScript_accounts :
    (Report.ofText strayScript).isValid = true ∧
      ∃ parts, Accounts (tokenize strayScript).tokens (Report.ofText strayScript).rules parts ∧
        if Text.isBlankText strayScript then (Report.ofText strayScript).warnings = []
        else Warns parts (Report.ofText strayScript).warnings :=
  have h : (Report.ofText strayScript).isValid = true := by decide +kernel
  ⟨h, ofText_accounts h⟩

/-- A form feed is blank, and yet it is a token: there is no warning of it. -/
theorem formFeed_not_accounted :
    (Report.ofText "\x0c").isValid = true ∧
      ¬ ∃ parts, Accounts (tokenize "\x0c").tokens (Report.ofText "\x0c").rules parts ∧
        Warns parts (Report.ofText "\x0c").warnings := by
  have htokens : (tokenize "\x0c").tokens = [⟨.unknown, "\x0c", ⟨1, 1⟩⟩] := by decide +kernel
  have hwarnings : (Report.ofText "\x0c").warnings = [] := by decide +kernel
  refine ⟨by decide +kernel, ?_⟩
  rintro ⟨parts, haccounts, hwarns⟩
  have hsplit : [⟨.unknown, "\x0c", ⟨1, 1⟩⟩] = parts.flatMap Part.tokens := by
    have := haccounts.split
    rwa [htokens] at this
  have hstrays : parts.filterMap Part.stray? = [] := by
    have := hwarns.strays
    rw [hwarnings] at this
    exact List.map_eq_nil_iff.1 this.symm
  -- the only token would have to be a stray one
  cases parts with
  | nil => cases hsplit
  | cons p parts =>
    cases p with
    | block => cases hsplit
    | stray t => cases hstrays

end Report

end Eligibility
