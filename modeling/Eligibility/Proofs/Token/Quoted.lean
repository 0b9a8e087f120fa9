import Eligibility.Proofs.Token.Edge

/-!
# Quoted texts

A text is quoted with a backslash before every quote in it. The scanner finds the closing quote and
the token drops the backslashes, each by a rule of its own.

* `escapedBy`, `quotedBy`; `IsQuotable`: neither a line break nor a backslash at the end;
* **`quotedWidth_escapedBy`**, `lexeme_quote`: the scanner takes the text with its quotes;
* `unescape_escapedBy`, `unquote_quotedBy`: the token stands for the text;
* **`quoted_iff_quotable`**: no other text is found again.
-/

namespace Eligibility

/-! ## Quoting -/

/-- A text with a backslash before every quote. -/
def escapedBy (q : Char) (cs : List Char) : List Char :=
  cs.flatMap fun c => if c = q then ['\\', q] else [c]

/-- A text between quotes. -/
def quotedBy (q : Char) (s : String) : String := .ofList (q :: (escapedBy q s.toList ++ [q]))

/-- The text has no line break, and no backslash at its end. -/
def IsQuotable (cs : List Char) : Prop := '\n' ∉ cs ∧ cs.getLast? ≠ some '\\'

instance (cs : List Char) : Decidable (IsQuotable cs) := inferInstanceAs (Decidable (_ ∧ _))

variable {q : Char} {cs ds : List Char}

theorem escapedBy_quote (q : Char) (cs : List Char) :
    escapedBy q (q :: cs) = '\\' :: q :: escapedBy q cs := by
  rw [escapedBy, List.flatMap_cons, if_pos rfl]; rfl

theorem escapedBy_cons {c : Char} (h : c ≠ q) (cs : List Char) :
    escapedBy q (c :: cs) = c :: escapedBy q cs := by
  rw [escapedBy, List.flatMap_cons, if_neg h]; rfl

theorem escapedBy_append (q : Char) (cs ds : List Char) :
    escapedBy q (cs ++ ds) = escapedBy q cs ++ escapedBy q ds := List.flatMap_append

theorem toList_quotedBy (q : Char) (s : String) :
    (quotedBy q s).toList = q :: (escapedBy q s.toList ++ [q]) := String.toList_ofList

/-- Quoting leaves the last character as it is. -/
theorem getLast?_escapedBy (q : Char) (cs : List Char) :
    (escapedBy q cs).getLast? = cs.getLast? := by
  rcases List.eq_nil_or_concat cs with rfl | ⟨ds, d, rfl⟩
  · rfl
  · rw [List.concat_eq_append, escapedBy_append, List.getLast?_concat]
    by_cases h : d = q
    · subst h
      rw [escapedBy_quote]
      simp [escapedBy]
    · rw [escapedBy_cons h]
      simp [escapedBy]

theorem unescape_cons {c : Char} (h : ¬ (c = '\\' ∧ cs.head? = some q)) :
    Token.unescape q (c :: cs) = c :: Token.unescape q cs := by
  cases cs with
  | nil => rfl
  | cons d ds =>
    rw [Token.unescape, if_neg]
    exact fun hc => h ⟨hc.1, congrArg some hc.2⟩

section

variable (hq : q = '"' ∨ q = '\'')
include hq

theorem quote_ne_backslash : q ≠ '\\' := by rcases hq with rfl | rfl <;> decide

theorem quote_ne_newline : q ≠ '\n' := by rcases hq with rfl | rfl <;> decide

theorem head?_escapedBy (cs : List Char) : (escapedBy q cs).head? ≠ some q := by
  cases cs with
  | nil => exact nofun
  | cons c cs =>
    by_cases h : c = q
    · subst h
      rw [escapedBy_quote]
      exact fun e => quote_ne_backslash hq (Option.some.inj e).symm
    · rw [escapedBy_cons h]
      exact fun e => h (Option.some.inj e)

/-! ## The scanner -/

/-- A backslash of the text itself takes no quote along. -/
theorem head?_escapedBy_append (h : cs = [] → ds.head? ≠ some q) :
    (escapedBy q cs ++ ds).head? ≠ some q := by
  have hhead := head?_escapedBy hq cs
  cases he : escapedBy q cs with
  | nil =>
    refine h ?_
    cases cs with
    | nil => rfl
    | cons c cs =>
      by_cases hc : c = q
      · subst hc; rw [escapedBy_quote] at he; cases he
      · rw [escapedBy_cons hc] at he; cases he
  | cons d es => rwa [he] at hhead

/-- **The scanner goes through the text,** unless a backslash at its end meets a quote. -/
theorem quotedWidth_escapedBy (hn : '\n' ∉ cs)
    (hl : cs.getLast? = some '\\' → ds.head? ≠ some q) :
    quotedWidth q false (escapedBy q cs ++ ds) =
      (escapedBy q cs).length + quotedWidth q false ds := by
  induction cs with
  | nil => exact (Nat.zero_add _).symm
  | cons c cs ih =>
    have hlast : cs.getLast? = some '\\' → ds.head? ≠ some q := fun h =>
      hl (by rw [List.getLast?_cons, h]; rfl)
    have ih := ih (fun hm => hn (List.mem_cons_of_mem c hm)) hlast
    by_cases hc : c = q
    · subst hc
      rw [escapedBy_quote, List.cons_append, List.cons_append, quotedWidth,
        if_neg Bool.false_ne_true, if_neg (by decide), if_neg (quote_ne_backslash hq).symm]
      have htakes : ('\\' == '\\' && (c :: (escapedBy c cs ++ ds)).head? == some c) = true := by
        simp
      rw [htakes, quotedWidth, if_pos rfl, ih]
      simp only [List.length_cons]
      omega
    · have hne : c ≠ '\n' := fun e => hn (e ▸ List.mem_cons_self)
      have hstays : (c == '\\' && (escapedBy q cs ++ ds).head? == some q) = false := by
        by_cases hb : c = '\\'
        · subst hb
          have hahead : (escapedBy q cs ++ ds).head? ≠ some q :=
            head?_escapedBy_append hq fun e => hl (by rw [e]; rfl)
          rw [beq_false_of_ne hahead, Bool.and_false]
        · rw [beq_false_of_ne hb, Bool.false_and]
      rw [escapedBy_cons hc, List.cons_append, quotedWidth, if_neg Bool.false_ne_true, if_neg hne,
        if_neg hc, hstays, ih]
      simp only [List.length_cons]
      omega

theorem lexeme_quote (rest : List Char) :
    lexeme (q :: rest) = .slice .string (quotedWidth q false rest + 1) (q :: rest) := by
  simp only [lexeme]
  rw [if_neg (quote_ne_newline hq), if_pos hq]

theorem gapWidth_quote (rest : List Char) : gapWidth false (q :: rest) = 0 := by
  rcases hq with rfl | rfl <;> rfl

/-- A string ends where the scanner stops. -/
theorem tokensFrom_quote {front back : List Char}
    (h : quotedWidth q false (front ++ back) = front.length) (p : Position) :
    tokensFrom p (q :: (front ++ back)) = (tokensFrom (p.right (front.length + 1)) back).behind
      [⟨.string, .ofList (q :: front), p⟩] := by
  have hl : lexeme (q :: front ++ back) = ⟨.string, .ofList (q :: front), (q :: front).length⟩ := by
    rw [List.cons_append, lexeme_quote hq, h, Lexeme.slice, List.take_succ_cons, List.take_left]
    rfl
  have hk : TokenKind.string ≠ .newline := by decide
  exact tokensFrom_front (List.cons_ne_nil _ _) (gapWidth_quote hq _) hk hl p

/-! ## The content -/

theorem unescape_escapedBy (cs : List Char) : Token.unescape q (escapedBy q cs) = cs := by
  induction cs with
  | nil => rfl
  | cons c cs ih =>
    by_cases h : c = q
    · subst h
      rw [escapedBy_quote, Token.unescape, if_pos ⟨rfl, rfl⟩, ih]
    · rw [escapedBy_cons h, unescape_cons fun hc => head?_escapedBy hq cs hc.2, ih]

/-- Behind a backslash at the end of the text, the closing quote reads as one of the text. -/
theorem escapedBy_open (h : cs.getLast? = some '\\') :
    escapedBy q cs ++ [q] = escapedBy q (cs.dropLast ++ [q]) := by
  obtain ⟨front, rfl⟩ := List.getLast?_eq_some_iff.1 h
  rw [List.dropLast_concat, escapedBy_append, escapedBy_append,
    escapedBy_cons (quote_ne_backslash hq).symm, escapedBy_quote, List.append_assoc]
  rfl

/-- The token stands for the text, unless a backslash at its end takes the closing quote along. -/
theorem unquote_quotedBy (cs : List Char) :
    Token.unquote (q :: (escapedBy q cs ++ [q])) =
      if cs.getLast? = some '\\' then cs.dropLast ++ [q] else cs := by
  have hlast := getLast?_escapedBy q cs
  rw [Token.unquote, Token.unclose, List.getLast?_concat, List.dropLast_concat, hlast]
  by_cases h : cs.getLast? = some '\\'
  · rw [if_pos h, if_neg fun hc => hc.2 h, escapedBy_open hq h, unescape_escapedBy hq]
  · rw [if_neg h, if_pos ⟨rfl, h⟩, unescape_escapedBy hq]

/-! ## The tokens -/

theorem tokenize_quotedBy {s : String} (hn : '\n' ∉ s.toList) :
    (tokenize (quotedBy q s)).tokens = [⟨.string, quotedBy q s, .first⟩] := by
  have hwidth : quotedWidth q false (escapedBy q s.toList ++ [q] ++ []) =
      (escapedBy q s.toList ++ [q]).length := by
    rw [List.append_nil]
    by_cases hl : s.toList.getLast? = some '\\'
    · have hopen : '\n' ∉ s.toList.dropLast ++ [q] := by
        rw [List.mem_append, List.mem_singleton, not_or]
        exact ⟨fun hm => hn (List.dropLast_subset _ hm), (quote_ne_newline hq).symm⟩
      have hnone : ([] : List Char).head? ≠ some q := nofun
      have := quotedWidth_escapedBy hq hopen fun _ => hnone
      rw [escapedBy_open hq hl]
      rwa [List.append_nil] at this
    · rw [quotedWidth_escapedBy hq hn fun h => absurd h hl, quotedWidth, if_neg Bool.false_ne_true,
        if_neg (quote_ne_newline hq), if_pos rfl, List.length_append, List.length_singleton]
  have := tokensFrom_quote hq hwidth .first
  rw [List.append_nil, tokensFrom_nil] at this
  rw [tokenize, toList_quotedBy, this, quotedBy]
  rfl

theorem tokenize_quotedBy_append {s : String} (h : IsQuotable s.toList) (rest : String) :
    tokenize (quotedBy q s ++ rest) =
      (tokensFrom (Position.first.right (quotedBy q s).length) rest.toList).behind
        [⟨.string, quotedBy q s, .first⟩] := by
  have hwidth : quotedWidth q false (escapedBy q s.toList ++ [q] ++ rest.toList) =
      (escapedBy q s.toList ++ [q]).length := by
    rw [List.append_assoc, quotedWidth_escapedBy hq h.1 fun hl => absurd hl h.2, List.cons_append,
      quotedWidth, if_neg Bool.false_ne_true, if_neg (quote_ne_newline hq), if_pos rfl,
      List.length_append, List.length_singleton]
  have hlength : (quotedBy q s).length = (escapedBy q s.toList ++ [q]).length + 1 := by
    rw [← String.length_toList, toList_quotedBy, List.length_cons]
  rw [tokenize, String.toList_append, toList_quotedBy, List.cons_append, tokensFrom_quote hq hwidth,
    hlength, quotedBy]

theorem content_quotedBy (s : String) (p : Position) :
    (⟨.string, quotedBy q s, p⟩ : Token).content = .ofList
      (if s.toList.getLast? = some '\\' then s.toList.dropLast ++ [q] else s.toList) := by
  rw [Token.content, if_pos rfl, toList_quotedBy, unquote_quotedBy hq]

end

/-- A line break is in no gap. -/
theorem tokens_ne_nil_of_newline (h : '\n' ∈ cs) (p : Position) :
    (tokensFrom p cs).tokens ≠ [] := by
  intro hnil
  have hsplit := List.take_append_drop (gapWidth false cs) cs
  have hahead : cs.drop (gapWidth false cs) = [] := by
    by_contra hne
    rw [tokensFrom_of_ne_nil hne] at hnil
    cases hnil
  rw [← hsplit, hahead, List.append_nil] at h
  exact (gap_gapWidth cs).newline_notMem h

/-- A line break ends the token before it, and is a token of its own. -/
theorem two_tokens_of_newline {c : Char} (hc : c ≠ '\n') (hgap : gapWidth false (c :: cs) = 0)
    (h : '\n' ∈ c :: cs) (p : Position) (t : Token) : (tokensFrom p (c :: cs)).tokens ≠ [t] := by
  have hinline := (plain_lexeme hc cs).inline
  rw [← List.take_append_drop (lexeme (c :: cs)).width (c :: cs), List.mem_append] at h
  have hrest := h.resolve_left hinline.2
  have hahead : (c :: cs).drop (gapWidth false (c :: cs)) = c :: cs := by rw [hgap]; rfl
  rw [tokensFrom_of_cons hahead]
  intro he
  exact tokens_ne_nil_of_newline hrest _ (List.cons.inj he).2

theorem mem_escapedBy {c : Char} (h : c ∈ cs) : c ∈ escapedBy q cs := by
  refine List.mem_flatMap.2 ⟨c, h, ?_⟩
  by_cases hc : c = q
  · rw [if_pos hc, hc]; simp
  · rw [if_neg hc]; exact List.mem_cons_self

/-- **A text between quotes is read back as itself if and only if it is quotable,** and then also in
front of any text. -/
theorem quoted_iff_quotable (hq : q = '"' ∨ q = '\'') (s : String) :
    ((∃ t, (tokenize (quotedBy q s)).toList = [t, (tokenize (quotedBy q s)).eof] ∧
        t.kind = .string ∧ t.content = s) ↔ IsQuotable s.toList) ∧
      (IsQuotable s.toList → (⟨.string, quotedBy q s, .first⟩ : Token).content = s ∧
        ∀ rest : String, tokenize (quotedBy q s ++ rest) =
          (tokensFrom (Position.first.right (quotedBy q s).length) rest.toList).behind
            [⟨.string, quotedBy q s, .first⟩]) := by
  have hcontent (hl : s.toList.getLast? ≠ some '\\') :
      (⟨.string, quotedBy q s, .first⟩ : Token).content = s := by
    rw [content_quotedBy hq, if_neg hl, String.ofList_toList]
  refine ⟨⟨?_, fun h => ⟨_, ?_, rfl, hcontent h.2⟩⟩, fun h =>
    ⟨hcontent h.2, tokenize_quotedBy_append hq h⟩⟩
  · rintro ⟨t, ht, -, hs⟩
    have ht : (tokenize (quotedBy q s)).tokens = [t] := List.append_cancel_right ht
    have hn : '\n' ∉ s.toList := by
      -- a line break would end the string and be a second token
      intro hn
      rw [tokenize, toList_quotedBy] at ht
      refine two_tokens_of_newline (quote_ne_newline hq) (gapWidth_quote hq _) ?_ .first t ht
      exact List.mem_cons_of_mem _ (List.mem_append_left _ (mem_escapedBy hn))
    refine ⟨hn, fun hl => ?_⟩
    -- a backslash at the end would make the closing quote a part of the text
    rw [tokenize_quotedBy hq hn] at ht
    obtain rfl := (List.cons.inj ht).1
    rw [content_quotedBy hq, if_pos hl, ← String.toList_inj, String.toList_ofList] at hs
    rw [← hs, List.getLast?_concat] at hl
    exact quote_ne_backslash hq (Option.some.inj hl)
  · rw [TokenStream.toList, tokenize_quotedBy hq h.1]
    rfl

/-- A text with a quote and a backslash, in front of a comment. -/
theorem quoted_itsLine :
    ('\'' = '"' ∨ '\'' = '\'') ∧ IsQuotable "it's a\\b".toList ∧
      tokenize ("'it\\'s a\\b'" ++ " # end") =
        (tokensFrom ⟨1, 12⟩ " # end".toList).behind [⟨.string, "'it\\'s a\\b'", .first⟩] := by
  have hquoted : quotedBy '\'' "it's a\\b" = "'it\\'s a\\b'" := by decide
  have hs : IsQuotable "it's a\\b".toList := by decide
  have h := ((quoted_iff_quotable (.inr rfl) "it's a\\b").2 hs).2 " # end"
  rw [hquoted] at h
  exact ⟨.inr rfl, hs, h⟩

end Eligibility
