import Eligibility.Condition.Value
import Eligibility.Script.Expected
import Eligibility.Token.Stream

/-!
# Reading tokens

A reader looks at the tokens ahead and answers with a value and the tokens left, or with what it
lacks and the tokens at which it stops. Line breaks end nothing inside parentheses: there, a reader
is `nested` and looks past them.

* `Parsed`: a value and the tokens left, fewer than a bound;
* `Failure`, `Reading`;
* **`next?`**, `expect`: the first token that counts, on condition that it reads as a value.
-/

namespace Eligibility

/-- A value read from the front of a list of tokens, and the fewer than `n` tokens left. -/
structure Parsed (α : Type) (n : Nat) where
  value : α
  rest : List Token
  lt : rest.length < n

namespace Parsed

variable {α β : Type} {m n : Nat}

/-- The same reading under a larger bound. -/
def widen (h : m ≤ n) (p : Parsed α m) : Parsed α n := ⟨p.value, p.rest, Nat.lt_of_lt_of_le p.lt h⟩

def map (f : α → β) (p : Parsed α n) : Parsed β n := ⟨f p.value, p.rest, p.lt⟩

/-- A value that takes no token. -/
def stay (a : α) (ts : List Token) : Parsed α (ts.length + 1) := ⟨a, ts, Nat.lt_succ_self _⟩

end Parsed

/-- What a reader lacks, and the tokens at which it stops. -/
structure Failure where
  expected : Expected
  rest : List Token
  deriving DecidableEq, Repr

/-- The outcome of a reader that leaves fewer than `n` tokens. -/
abbrev Reading (α : Type) (n : Nat) := Except Failure (Parsed α n)

def Reading.widen {α : Type} {m n : Nat} (h : m ≤ n) (r : Reading α m) : Reading α n :=
  Except.map (Parsed.widen h) r

/-! ## Line breaks -/

def dropNewlines (ts : List Token) : List Token := ts.dropWhile (·.kind = .newline)

/-- The tokens that count. -/
def ahead (nested : Bool) (ts : List Token) : List Token := if nested then dropNewlines ts else ts

theorem length_dropNewlines_le (ts : List Token) : (dropNewlines ts).length ≤ ts.length :=
  (List.dropWhile_sublist _).length_le

theorem length_ahead_le (nested : Bool) (ts : List Token) :
    (ahead nested ts).length ≤ ts.length := by
  cases nested
  · exact Nat.le_refl _
  · exact length_dropNewlines_le ts

/-! ## One token -/

/-- The first token, if it reads as a value. -/
def head? {α : Type} (read : Token → Option α) : (ts : List Token) → Option (Parsed α ts.length)
  | [] => none
  | t :: ts => (read t).map fun a => ⟨a, ts, Nat.lt_succ_self _⟩

/-- The first token that counts, if it reads as a value. -/
def next? {α : Type} (nested : Bool) (read : Token → Option α) (ts : List Token) :
    Option (Parsed α ts.length) :=
  (head? read (ahead nested ts)).map (Parsed.widen (length_ahead_le nested ts))

/-- The first token that counts, which has to read as a value. -/
def expect {α : Type} (nested : Bool) (read : Token → Option α) (e : Expected) (ts : List Token) :
    Reading α ts.length :=
  match next? nested read ts with
  | some p => .ok p
  | none => .error ⟨e, ahead nested ts⟩

namespace Token

/-- A token of a given kind. -/
def ofKind? (k : TokenKind) (t : Token) : Option Unit := if t.kind = k then some () else none

/-- A literal or a bare word. -/
def value? (t : Token) : Option Value :=
  match t.kind with
  | .string => some (.string t.content)
  | .number => Value.ofNumber? t.text
  | .answer b | .truth b => some (.bool b)
  | .identifier => some (.identifier t.text)
  | _ => none

/-- A field id. -/
def field? (t : Token) : Option String := if t.kind = .identifier then some t.text else none

/-- A quoted text. -/
def string? (t : Token) : Option String := if t.kind = .string then some t.content else none

/-- A whole number; a fraction is cut off. -/
def integer? (t : Token) : Option Int64 := t.number?.map Binary64.truncate

/-- A boolean keyword, or a number other than zero. -/
def boolean? (t : Token) : Option Bool :=
  match t.kind with
  | .answer b | .truth b => some b
  | .number => some (t.number?.any (!·.isZero))
  | _ => none

/-- A bare word or a quoted text. -/
def category? (t : Token) : Option String := t.field?.or t.string?

def ruleType? (t : Token) : Option RuleType :=
  match t.kind with
  | .ruleType r => some r
  | _ => none

def clause? (t : Token) : Option Clause :=
  match t.kind with
  | .clause c => some c
  | _ => none

def binary? (t : Token) : Option Operator := t.kind.binary?

/-- An operator that may follow a field, and whether it is negated. -/
def operator? (t : Token) : Option (Operator × Bool) :=
  match t.kind with
  | .comparison op => some (op, false)
  | .notIn => some (.isIn, true)
  | _ => none

end Token

end Eligibility
