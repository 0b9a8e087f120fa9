import Eligibility.Proofs.Identifier
import Eligibility.Proofs.Width

/-!
# SQL tokens

SQL text is read as words, numbers, quoted texts, comments, parentheses and symbols. A word may have
several segments joined by dots; in a quoted text the quote itself is written twice. Text with a
quoted text or a block comment that is never closed has no tokens.

* `Token`, `quoted?`, `token?`, **`tokens`**;
* **`token?_append`**: a token is read alike whatever follows it after a break.
-/

namespace Eligibility.Sql

/-- A token of SQL text. -/
inductive Token where
  /-- A keyword, or a name of one or more segments. -/
  | word (s : String)
  | number (s : String)
  /-- A string literal: the text that it stands for. -/
  | literal (s : String)
  /-- A name in double quotes. -/
  | delimited (s : String)
  | comment
  | opening
  | closing
  | symbol (s : String)
  deriving DecidableEq, Repr

/-! ## Reading tokens -/

/-- The characters that may stand between tokens. -/
def isSpace (c : Char) : Bool := c ∈ [' ', '\t', '\n', '\x0b', '\x0c', '\r']

/-- The text up to the closing quote, and what follows that quote. -/
def quoted? (q : Char) : List Char → Option (List Char × List Char)
  | [] => none
  | c :: cs =>
    if c = q then
      match cs with
      | [] => some ([], [])
      | d :: ds => if d = q then (quoted? q ds).map fun p => (q :: p.1, p.2) else some ([], d :: ds)
    else (quoted? q cs).map fun p => (c :: p.1, p.2)

/-- What follows the end of a block comment. -/
def uncomment? : List Char → Option (List Char)
  | [] => none
  | c :: cs => if c = '*' ∧ cs.head? = some '/' then some cs.tail else uncomment? cs

/-- Whether two characters make up one symbol. -/
def isPair (c d : Char) : Bool := (c, d) ∈ [('<', '='), ('>', '='), ('<', '>'), ('!', '=')]

/-- The token that starts with a character other than a space, and what follows it. -/
def token? (c : Char) (cs : List Char) : Option (Token × List Char) :=
  if c = '\'' then (quoted? c cs).map fun p => (.literal (.ofList p.1), p.2)
  else if c = '"' then (quoted? c cs).map fun p => (.delimited (.ofList p.1), p.2)
  else if c = '-' ∧ cs.head? = some '-' then some (.comment, cs.dropWhile (· ≠ '\n'))
  else if c = '/' ∧ cs.head? = some '*' then (uncomment? cs.tail).map fun r => (.comment, r)
  else if isWordStart c then
    some (.word (.ofList (c :: cs.take (tailWidth cs))), cs.drop (tailWidth cs))
  else if c.isDigit then
    let n := magnitudeWidth (c :: cs)
    some (.number (.ofList ((c :: cs).take n)), cs.drop (n - 1))
  else if c = '(' then some (.opening, cs)
  else if c = ')' then some (.closing, cs)
  else if cs.head?.any (isPair c) then some (.symbol (.ofList (c :: cs.take 1)), cs.tail)
  else some (.symbol (.singleton c), cs)

theorem quoted?_cons_of_ne {q c : Char} (h : c ≠ q) (cs : List Char) :
    quoted? q (c :: cs) = (quoted? q cs).map fun p => (c :: p.1, p.2) := by
  rw [quoted?.eq_def]; simp only [if_neg h]

theorem quoted?_le {q : Char} {cs : List Char} {p : List Char × List Char}
    (h : quoted? q cs = some p) : p.2.length ≤ cs.length := by
  fun_induction quoted? q cs generalizing p with
  | case1 => cases h
  | case2 => cases h; exact Nat.zero_le _
  | case3 ds ih =>
    obtain ⟨r, hr, rfl⟩ := Option.map_eq_some_iff.1 h
    have := ih hr
    simp only [List.length_cons]; omega
  | case4 d ds hd => cases h; exact Nat.le_succ _
  | case5 c cs hc ih =>
    obtain ⟨r, hr, rfl⟩ := Option.map_eq_some_iff.1 h
    have := ih hr
    simp only [List.length_cons]; omega

theorem uncomment?_le {cs r : List Char} (h : uncomment? cs = some r) : r.length ≤ cs.length := by
  induction cs with
  | nil => simp [uncomment?] at h
  | cons c cs ih =>
    simp only [uncomment?] at h
    split at h
    · simp only [Option.some.injEq] at h; subst h
      simp only [List.length_tail, List.length_cons]; omega
    · have := ih h
      simp only [List.length_cons]; omega

theorem token?_le {c : Char} {cs : List Char} {p : Token × List Char} (h : token? c cs = some p) :
    p.2.length ≤ cs.length := by
  unfold token? at h
  by_cases h1 : c = '\''
  · rw [if_pos h1] at h
    obtain ⟨r, hr, rfl⟩ := Option.map_eq_some_iff.1 h
    exact quoted?_le hr
  rw [if_neg h1] at h
  by_cases h2 : c = '"'
  · rw [if_pos h2] at h
    obtain ⟨r, hr, rfl⟩ := Option.map_eq_some_iff.1 h
    exact quoted?_le hr
  rw [if_neg h2] at h
  by_cases h3 : c = '-' ∧ cs.head? = some '-'
  · rw [if_pos h3] at h
    cases h
    exact (List.dropWhile_sublist _).length_le
  rw [if_neg h3] at h
  by_cases h4 : c = '/' ∧ cs.head? = some '*'
  · rw [if_pos h4] at h
    obtain ⟨r, hr, rfl⟩ := Option.map_eq_some_iff.1 h
    exact Nat.le_trans (uncomment?_le hr) (by rw [List.length_tail]; exact Nat.sub_le ..)
  rw [if_neg h4] at h
  by_cases h5 : isWordStart c = true
  · rw [if_pos h5] at h
    cases h
    exact (List.drop_sublist ..).length_le
  rw [if_neg h5] at h
  by_cases h6 : c.isDigit = true
  · rw [if_pos h6] at h
    cases h
    exact (List.drop_sublist ..).length_le
  rw [if_neg h6] at h
  by_cases h7 : c = '('
  · rw [if_pos h7] at h
    cases h
    exact Nat.le_refl _
  rw [if_neg h7] at h
  by_cases h8 : c = ')'
  · rw [if_pos h8] at h
    cases h
    exact Nat.le_refl _
  rw [if_neg h8] at h
  by_cases h9 : cs.head?.any (isPair c) = true
  · rw [if_pos h9] at h
    cases h
    rw [List.length_tail]
    exact Nat.sub_le ..
  · rw [if_neg h9] at h
    cases h
    exact Nat.le_refl _

theorem token?_word {c : Char} (h : isWordStart c = true) (cs : List Char) :
    token? c cs =
      some (.word (.ofList (c :: cs.take (tailWidth cs))), cs.drop (tailWidth cs)) := by
  have hne (d : Char) (hd : isWordStart d = false) : c ≠ d := ne_of_kind h hd
  rw [token?, if_neg (hne '\'' rfl), if_neg (hne '"' rfl), if_neg (fun hc => hne '-' rfl hc.1),
    if_neg (fun hc => hne '/' rfl hc.1), if_pos h]

theorem token?_number {c : Char} (h : c.isDigit = true) (cs : List Char) :
    token? c cs = some (.number (.ofList ((c :: cs).take (magnitudeWidth (c :: cs)))),
      cs.drop (magnitudeWidth (c :: cs) - 1)) := by
  have hne (d : Char) (hd : d.isDigit = false) : c ≠ d := ne_of_kind h hd
  have hword : ¬ isWordStart c = true := by
    rw [isWordStart_of_isDigit h]
    exact Bool.false_ne_true
  rw [token?, if_neg (hne '\'' rfl), if_neg (hne '"' rfl), if_neg (fun hc => hne '-' rfl hc.1),
    if_neg (fun hc => hne '/' rfl hc.1), if_neg hword, if_pos h]

theorem isSpace_of_kind {p : Char → Bool} {c : Char} (h : p c = true)
    (hp : [' ', '\t', '\n', '\x0b', '\x0c', '\r'].any p = false) : isSpace c = false :=
  decide_eq_false (not_mem_of_kind h hp)

/-- The tokens of SQL text. -/
def tokens (cs : List Char) : Option (List Token) :=
  match cs with
  | [] => some []
  | c :: cs =>
    if isSpace c then tokens cs
    else match _h : token? c cs with
      | none => none
      | some (t, rest) => (tokens rest).map (t :: ·)
termination_by cs.length
decreasing_by
  · exact Nat.lt_succ_self _
  · exact Nat.lt_succ_of_le (token?_le _h)

@[simp] theorem tokens_nil : tokens [] = some [] := by rw [tokens]

theorem tokens_cons_space {c : Char} (h : isSpace c = true) (cs : List Char) :
    tokens (c :: cs) = tokens cs := by
  rw [tokens, if_pos h]

theorem tokens_cons {c : Char} (h : isSpace c = false) (cs : List Char) :
    tokens (c :: cs) = (token? c cs).bind fun p => (tokens p.2).map (p.1 :: ·) := by
  rw [tokens, if_neg (by simp [h])]
  split
  · rename_i hn; rw [hn]; rfl
  · rename_i hs; rw [hs]; rfl

/-! ## Tokens inside other text -/

theorem quoted?_append {q : Char} {cs : List Char} {p : List Char × List Char}
    (h : quoted? q cs = some p) {b : List Char} (hb : b.head? ≠ some q) :
    quoted? q (cs ++ b) = some (p.1, p.2 ++ b) := by
  fun_induction quoted? q cs generalizing p with
  | case1 => cases h
  | case2 =>
    cases h
    cases b with
    | nil => simp [quoted?]
    | cons d b =>
      have hd : d ≠ q := fun e => hb (by rw [e]; rfl)
      simp [quoted?, hd]
  | case3 ds ih =>
    obtain ⟨r, hr, rfl⟩ := Option.map_eq_some_iff.1 h
    simp [quoted?, ih hr]
  | case4 d ds hd => cases h; simp [quoted?, hd]
  | case5 c cs hc ih =>
    obtain ⟨r, hr, rfl⟩ := Option.map_eq_some_iff.1 h
    rw [List.cons_append, quoted?_cons_of_ne hc, ih hr]; rfl

/-- A token other than a comment is read alike whatever follows it after a break. -/
theorem token?_append {c : Char} {cs : List Char} {p : Token × List Char}
    (h : token? c cs = some p) (hp : p.1 ≠ .comment) {b : List Char} (hb : Breaks b) :
    token? c (cs ++ b) = some (p.1, p.2 ++ b) := by
  have hh (q : Char) (hq : q ∉ breakers) :
      (cs ++ b).head? = some q ↔ cs.head? = some q := by
    cases cs with
    | nil => exact ⟨fun e => absurd e (hb.head?_ne hq), fun e => by cases e⟩
    | cons d cs => exact Iff.rfl
  have hpair : b.head?.any (isPair c) = false := hb.head?_any (by simp [breakers, isPair])
  unfold token? at h ⊢
  rw [head?_append_any hpair]
  simp only [hh '-' (by decide), hh '*' (by decide)]
  by_cases h1 : c = '\''
  · rw [if_pos h1] at h ⊢
    obtain ⟨r, hr, rfl⟩ := Option.map_eq_some_iff.1 h
    rw [quoted?_append hr (hb.head?_ne (by rw [h1]; decide))]; rfl
  rw [if_neg h1] at h ⊢
  by_cases h2 : c = '"'
  · rw [if_pos h2] at h ⊢
    obtain ⟨r, hr, rfl⟩ := Option.map_eq_some_iff.1 h
    rw [quoted?_append hr (hb.head?_ne (by rw [h2]; decide))]; rfl
  rw [if_neg h2] at h ⊢
  by_cases h3 : c = '-' ∧ cs.head? = some '-'
  · rw [if_pos h3] at h
    cases h
    exact absurd rfl hp
  rw [if_neg h3] at h ⊢
  by_cases h4 : c = '/' ∧ cs.head? = some '*'
  · rw [if_pos h4] at h
    obtain ⟨r, hr, rfl⟩ := Option.map_eq_some_iff.1 h
    exact absurd rfl hp
  rw [if_neg h4] at h ⊢
  by_cases h5 : isWordStart c = true
  · rw [if_pos h5] at h ⊢
    cases h
    have hw := tailWidth_le cs
    rw [tailWidth_append cs hb, List.take_append_of_le_length hw, List.drop_append_of_le_length hw]
  rw [if_neg h5] at h ⊢
  by_cases h6 : c.isDigit = true
  · rw [if_pos h6] at h ⊢
    cases h
    have hw := magnitudeWidth_le (c :: cs)
    have hdrop : magnitudeWidth (c :: cs) - 1 ≤ cs.length := by
      rw [List.length_cons] at hw; omega
    rw [← List.cons_append, magnitudeWidth_append (c :: cs) hb, List.take_append_of_le_length hw,
      List.drop_append_of_le_length hdrop]
  rw [if_neg h6] at h ⊢
  by_cases h7 : c = '('
  · rw [if_pos h7] at h ⊢
    cases h; rfl
  rw [if_neg h7] at h ⊢
  by_cases h8 : c = ')'
  · rw [if_pos h8] at h ⊢
    cases h; rfl
  rw [if_neg h8] at h ⊢
  by_cases h9 : cs.head?.any (isPair c) = true
  · rw [if_pos h9] at h ⊢
    cases cs with
    | nil => cases h9
    | cons d cs => cases h; rfl
  · rw [if_neg h9] at h ⊢
    cases h; rfl

end Eligibility.Sql
