import Eligibility.Number.Decimal
import Eligibility.Script.Position
import Eligibility.Token.Lexeme

/-!
# Token streams

Every text has a token stream: characters that start no token become tokens of kind `unknown`.

* `Token`: kind, text and place, with the `content` of strings and the `number` of numbers;
* `TokenStream`: the tokens of a text and the place where it ends;
* **`tokenize`**.
-/

namespace Eligibility

/-- A token and the place where it starts. -/
structure Token where
  kind : TokenKind
  text : String
  position : Position
  deriving DecidableEq, Repr

namespace Token

/-- The number that a number token writes. -/
def number? (t : Token) : Option Binary64 :=
  if t.kind = .number then Binary64.ofText? t.text else none

/-- A backslash before the quote stands for the quote; every other backslash stands for itself. -/
def unescape (quote : Char) : List Char → List Char
  | [] => []
  | [c] => [c]
  | c :: d :: cs =>
    if c = '\\' ∧ d = quote then quote :: unescape quote cs else c :: unescape quote (d :: cs)

/-- The text after an opening quote without its closing quote. A quote after a backslash closes
nothing. -/
def unclose (quote : Char) (body : List Char) : List Char :=
  if body.getLast? = some quote ∧ body.dropLast.getLast? ≠ some '\\' then body.dropLast else body

/-- The content of a quoted text. -/
def unquote : List Char → List Char
  | [] => []
  | quote :: body => unescape quote (unclose quote body)

/-- What a string token stands for; the text of any other token. -/
def content (t : Token) : String :=
  if t.kind = .string then .ofList (unquote t.text.toList) else t.text

def describe (t : Token) : String := s!"{t.kind.name}('{t.text}') at {t.position.text}"

end Token

/-- The tokens of a text, and where the text ends. -/
structure TokenStream where
  tokens : List Token
  finish : Position
  deriving DecidableEq, Repr

namespace TokenStream

/-- The token that stands for the end of the text. -/
def eof (s : TokenStream) : Token := ⟨.eof, "", s.finish⟩

/-- The tokens with the one for the end of the text. -/
def toList (s : TokenStream) : List Token := s.tokens ++ [s.eof]

end TokenStream

/-- The place after a lexeme. -/
def Position.after (p : Position) (l : Lexeme) : Position :=
  if l.kind = .newline then p.nextLine else p.right l.width

/-- The tokens of the characters from a place on. -/
def tokensFrom (p : Position) (cs : List Char) : TokenStream :=
  let gap := gapWidth false cs
  let start := p.right gap
  let ahead := cs.drop gap
  if _h : ahead = [] then ⟨[], start⟩
  else
    let l := lexeme ahead
    let rest := tokensFrom (start.after l) (ahead.drop l.width)
    ⟨⟨l.kind, l.text, start⟩ :: rest.tokens, rest.finish⟩
termination_by cs.length
decreasing_by
  exact Nat.lt_of_lt_of_le (length_drop_lexeme _h) (by rw [List.length_drop]; exact Nat.sub_le ..)

/-- The tokens of a text. -/
def tokenize (text : String) : TokenStream := tokensFrom .first text.toList

end Eligibility
