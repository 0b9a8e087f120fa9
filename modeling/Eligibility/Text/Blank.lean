/-!
# Blank characters

A character is **blank** when it has the Unicode property White_Space. Records, names and settings
are trimmed of blanks; a script of blanks alone is empty.

* `isBlank`, `trim`, `isBlankText`.
-/

namespace Eligibility.Text

/-- The Unicode property White_Space. -/
def isBlank (c : Char) : Bool :=
  c ∈ ['\t', '\n', '\x0b', '\x0c', '\r', ' ', '\u0085', '\u00a0', '\u1680', '\u2028', '\u2029',
    '\u202f', '\u205f', '\u3000'] || ('\u2000' ≤ c && c ≤ '\u200a')

/-- Drop the blanks at both ends. -/
def trimChars (cs : List Char) : List Char :=
  ((cs.dropWhile isBlank).reverse.dropWhile isBlank).reverse

/-- Drop the blanks at both ends. -/
def trim (s : String) : String := .ofList (trimChars s.toList)

/-- A text of blanks alone. -/
def isBlankText (s : String) : Bool := s.toList.all isBlank

end Eligibility.Text
