import Eligibility.Text.Letter
import Eligibility.Text.Numeral
import Eligibility.Token.Kind

/-!
# Lexemes

A scanner looks at the characters ahead and answers with a **width**, the count of characters that
it takes. What lies between tokens is a gap: spaces, tabs, carriage returns and comments.

* `gapWidth`: a comment runs from `#` to the end of its line, given that no carriage return stands
  in it other than before a line feed;
* `wordWidth`, `tailWidth`, `magnitudeWidth`, `quotedWidth`, `followWidth?`: the scanners;
* **`lexeme`**: the kind, text and width of the token at the front;
* `lexeme_width_pos`, `length_drop_lexeme`: it takes at least one character.
-/

namespace Eligibility

open Text

/-! ## Characters -/

def isWordStart (c : Char) : Bool := isLetter c || c == '_'

def isWordChar (c : Char) : Bool := isLetter c || isNumeral c || c == '_'

/-- Spaces and tabs, which may stand between the words of one keyword. -/
def isSpacing (c : Char) : Bool := c == ' ' || c == '\t'

/-- Spaces, tabs and carriage returns, which may stand between tokens. -/
def isGap (c : Char) : Bool := isSpacing c || c == '\r'

/-- The length of the longest run at the front. -/
def runWidth (p : Char → Bool) (cs : List Char) : Nat := (cs.takeWhile p).length

/-! ## Gaps -/

/-- Whether the rest of the line has no carriage return except one that ends it. -/
def closesLine : List Char → Bool
  | [] => true
  | c :: cs => if c = '\n' then true else if c = '\r' then cs.head? == some '\n' else closesLine cs

/-- The width of the gap at the front, started inside a comment or outside. -/
def gapWidth (inComment : Bool) : List Char → Nat
  | [] => 0
  | c :: cs =>
    if inComment && c != '\n' && c != '\r' then gapWidth true cs + 1
    else if isGap c then gapWidth false cs + 1
    else if c == '#' && closesLine cs then gapWidth true cs + 1
    else 0

/-! ## Scanners -/

/-- A word: a letter or underscore, then letters, numerals and underscores. -/
def wordWidth : List Char → Nat
  | [] => 0
  | c :: cs => if isWordStart c then runWidth isWordChar cs + 1 else 0

/-- The rest of a word and the segments that follow it, each after a dot. -/
def tailWidth : List Char → Nat
  | [] => 0
  | c :: cs =>
    if isWordChar c || (c == '.' && cs.head?.any isWordChar) then tailWidth cs + 1 else 0

/-- A point and at least one digit. -/
def fractionWidth : List Char → Nat
  | '.' :: cs => if runWidth Char.isDigit cs = 0 then 0 else runWidth Char.isDigit cs + 1
  | _ => 0

/-- Digits and an optional fraction. -/
def magnitudeWidth (cs : List Char) : Nat :=
  let digits := runWidth Char.isDigit cs
  digits + fractionWidth (cs.drop digits)

/-- A string after its opening quote, up to and with the closing quote or up to the end of the
line. A backslash before the quote character takes it along. -/
def quotedWidth (quote : Char) (escaped : Bool) : List Char → Nat
  | [] => 0
  | c :: cs =>
    if escaped then quotedWidth quote false cs + 1
    else if c = '\n' then 0
    else if c = quote then 1
    else quotedWidth quote (c == '\\' && cs.head? == some quote) cs + 1

/-- The given words, each after spaces or tabs, in any letter case. -/
def followWidth? : List String → List Char → Option Nat
  | [], _ => some 0
  | w :: ws, cs =>
    let spaces := runWidth isSpacing cs
    let ahead := cs.drop spaces
    let n := wordWidth ahead
    if spaces ≠ 0 ∧ upper (.ofList (ahead.take n)) = w then
      (followWidth? ws (ahead.drop n)).map (spaces + n + ·)
    else none

/-- The tokens made of punctuation, longer ones first. -/
def symbols : List (List Char × TokenKind) :=
  [(['!', '='], .comparison .neq), (['>', '='], .comparison .gte), (['<', '='], .comparison .lte),
    (['('], .leftParen), ([')'], .rightParen), ([','], .comma), ([':'], .colon), (['.'], .dot),
    (['+'], .plus), (['-'], .minus), (['='], .comparison .eq), (['!'], .not),
    (['>'], .comparison .gt), (['<'], .comparison .lt)]

/-! ## The token at the front -/

/-- A token without its place. The text of a keyword of several words is its upper-case form with
single spaces; every other text is the characters taken. -/
structure Lexeme where
  kind : TokenKind
  text : String
  width : Nat
  deriving DecidableEq, Repr

/-- The lexeme that takes the first `n` characters as they stand. -/
def Lexeme.slice (kind : TokenKind) (n : Nat) (cs : List Char) : Lexeme :=
  ⟨kind, .ofList (cs.take n), n⟩

/-- The keyword of several words whose first word is at the front. -/
def phrase? (first : String) (cs : List Char) : Option Lexeme :=
  TokenKind.phrases.findSome? fun (head, tail, kind) =>
    if head = upper first then
      (followWidth? tail (cs.drop first.length)).map fun n =>
        ⟨kind, " ".intercalate (head :: tail), first.length + n⟩
    else none

/-- The token at the front, where a word starts. A dotted name is never a keyword. -/
def wordLexeme (cs : List Char) : Lexeme :=
  let plain := wordWidth cs
  let dotted := tailWidth cs
  let word : String := .ofList (cs.take plain)
  if dotted ≠ plain then .slice .identifier dotted cs
  else (phrase? word cs).getD (.slice ((TokenKind.keyword? word).getD .identifier) plain cs)

/-- The token at the front, where neither a word, a number nor a string starts. -/
def symbolLexeme (cs : List Char) : Lexeme :=
  match symbols.find? fun s => s.1.isPrefixOf cs with
  | some (s, kind) => .slice kind s.length cs
  | none => .slice .unknown 1 cs

/-- The token at the front of a non-empty text without a gap. -/
def lexeme (cs : List Char) : Lexeme :=
  match cs with
  | [] => .slice .eof 0 cs
  | c :: rest =>
    if c = '\n' then .slice .newline 1 cs
    else if c = '"' ∨ c = '\'' then .slice .string (quotedWidth c false rest + 1) cs
    else if c.isDigit then .slice .number (magnitudeWidth cs) cs
    else if c = '-' ∧ rest.head?.any Char.isDigit then .slice .number (magnitudeWidth rest + 1) cs
    else if isWordStart c then wordLexeme cs
    else symbolLexeme cs

theorem wordWidth_pos {c : Char} (h : isWordStart c = true) (cs : List Char) :
    0 < wordWidth (c :: cs) := by simp [wordWidth, h]

theorem isWordChar_of_isWordStart {c : Char} (h : isWordStart c = true) : isWordChar c = true := by
  simp only [isWordStart, isWordChar, Bool.or_eq_true] at *
  rcases h with h | h <;> simp [h]

theorem lexeme_width_pos {cs : List Char} (h : cs ≠ []) : 0 < (lexeme cs).width := by
  match cs, h with
  | c :: rest, _ =>
    simp only [lexeme]
    split
    · simp [Lexeme.slice]
    split
    · simp [Lexeme.slice]
    split
    · rename_i hd
      have : 0 < runWidth Char.isDigit (c :: rest) := by simp [runWidth, hd]
      exact Nat.lt_of_lt_of_le this (Nat.le_add_right _ _)
    split
    · simp [Lexeme.slice]
    split
    · rename_i hw
      have hp := wordWidth_pos hw rest
      have ht : 0 < tailWidth (c :: rest) := by
        simp [tailWidth, isWordChar_of_isWordStart hw]
      simp only [wordLexeme]
      split
      · exact ht
      · cases hph : phrase? (.ofList ((c :: rest).take (wordWidth (c :: rest)))) (c :: rest) with
        | none => simpa [Lexeme.slice] using hp
        | some l =>
          obtain ⟨⟨head, tail, kind⟩, _, hl⟩ := List.exists_of_findSome?_eq_some hph
          simp only [Option.ite_none_right_eq_some, Option.map_eq_some_iff] at hl
          obtain ⟨_, n, _, rfl⟩ := hl
          simp only [Option.getD_some, String.length_ofList, List.length_take]
          have : 0 < (c :: rest).length := by simp
          omega
    · simp only [symbolLexeme]
      split
      · rename_i hs
        have := List.mem_of_find?_eq_some hs
        simp only [symbols, List.mem_cons, Prod.mk.injEq, List.not_mem_nil, or_false] at this
        rcases this with ⟨rfl, _⟩ | this
        · simp [Lexeme.slice]
        all_goals simp only [Lexeme.slice]
        all_goals grind
      · simp [Lexeme.slice]

theorem length_drop_lexeme {cs : List Char} (h : cs ≠ []) :
    (cs.drop (lexeme cs).width).length < cs.length := by
  have := lexeme_width_pos h
  have := List.length_pos_iff.2 h
  rw [List.length_drop]; omega

end Eligibility
