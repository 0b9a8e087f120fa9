import Eligibility.Proofs.Script.Draft

/-!
# Cursors on tokens

Tokens may be read in place, by a cursor that moves along them and counts the parentheses that are
open. The last token stands for the end. Nothing keeps a cursor on the tokens but the readers that
move it, so a reader that asks for a token where there is none halts.

* `Cursor`, `Cursor.index`: a place in a list of tokens, and the place of the next one that counts;
* `Halt`, `Track`, **`Walk`**: what ends a reader early, where a cursor has been, and readers that
  move a cursor;
* `Walk.token`, `Walk.moveTo`: the token at a place, and the one way to another place;
* `Loop`, `Loop.run`: a reader over and over again;
* `Walk.peek`, `Walk.advance`, `Walk.eat`, `Walk.consume`, `Walk.openParen`, `Walk.closeParen`,
  `Walk.skipNewlines`, `Walk.eatContinued`, `Walk.previousLine`: readers of single tokens.
-/

namespace Eligibility

/-! ## Cursors -/

/-- A place in a list of tokens. -/
structure Cursor where
  tokens : List Token
  current : Nat := 0
  /-- The number of open parentheses. -/
  depth : Nat := 0

namespace Cursor

/-- The cursor at another place. -/
def jump (c : Cursor) (i : Nat) : Cursor := { c with current := i }

/-- The cursor with another number of open parentheses. -/
def nest (c : Cursor) (depth : Nat) : Cursor := { c with depth }

def lastIndex (c : Cursor) : Nat := c.tokens.length - 1

/-- The first place from `i` on that holds no line break, and the last place at most. -/
def pastLines (c : Cursor) (i : Nat) : Nat :=
  if h : i < c.lastIndex then
    have hi : i < c.tokens.length := Nat.lt_of_lt_of_le h (Nat.sub_le ..)
    if c.tokens[i].kind = .newline then c.pastLines (i + 1) else i
  else i
termination_by c.lastIndex - i

/-- The place of the next token that counts. -/
def index (c : Cursor) : Nat :=
  min (if 0 < c.depth then c.pastLines c.current else c.current) c.lastIndex

end Cursor

/-! ## Readers that move a cursor -/

/-- What ends a reader early. -/
inductive Halt where
  /-- The script breaks the grammar. -/
  | lacks (e : Located Expected)
  /-- A reader was started at a token that nothing of its kind begins with. -/
  | misplaced (p : Position) (message : String)
  /-- There is no token at the place `i`. -/
  | outside (i : Nat)

/-- Where a cursor is, every place where it has been, and the report as written so far. -/
structure Track where
  cursor : Cursor
  visited : List Cursor
  draft : Draft

/-- The start of the tokens. -/
def Track.start (ts : List Token) : Track := ⟨⟨ts, 0, 0⟩, [⟨ts, 0, 0⟩], {}⟩

/-- A reader that moves a cursor. It need not come to an end. -/
abbrev Walk := ExceptT Halt (StateT Track Option)

namespace Walk

variable {α : Type}

/-- What comes of a reader, if it ends. -/
def run (w : Walk α) (t : Track) : Option (Except Halt α × Track) := w t

def cursor : Walk Cursor := return (← get).cursor

/-- The token at a place. -/
def token (i : Nat) : Walk Token := do
  match (← cursor).tokens[i]? with
  | some t => return t
  | none => throw (.outside i)

/-- Move the cursor. -/
def moveTo (c : Cursor) : Walk Unit :=
  modify fun t => { t with cursor := c, visited := c :: t.visited }

/-- Write a part of the report. -/
def write (f : Draft → Draft) : Walk Unit := modify fun t => { t with draft := f t.draft }

end Walk

/-! ## Loops -/

/-- A loop. A pass goes on with another value, or it ends the loop. -/
structure Loop (α : Type) where
  pass : α → Walk (Option α)

/-- The passes from a value on, up to the one that ends the loop. -/
def Loop.run {α : Type} (l : Loop α) (a : α) : Walk α := do
  match ← l.pass a with
  | some b => l |>.run b
  | none => return a
partial_fixpoint

namespace Walk

variable {α : Type}

/-! ## Single tokens -/

/-- The next token that counts. -/
def peek : Walk Token := do token (← cursor).index

/-- Halt at the next token. -/
def fail (halt : Position → Halt) : Walk α := do throw (halt (← peek).position)

/-- Take the next token; the one for the end stays where it is. -/
def advance : Walk Token := do
  let c ← cursor
  moveTo (c.jump (if c.index < c.lastIndex then c.index + 1 else c.index))
  token c.index

/-- Take the next token if it reads as a value. -/
def eat (read : Token → Option α) : Walk (Option α) := do
  match read (← peek) with
  | some a => do
    let _ ← advance
    return some a
  | none => return none

/-- Take the next token, which has to read as a value. -/
def consume (read : Token → Option α) (halt : Position → Halt) : Walk α := do
  match ← eat read with
  | some a => return a
  | none => fail halt

/-- Take an opening parenthesis; from here on line breaks count for nothing. -/
def openParen (halt : Position → Halt) : Walk Unit := do
  consume (Token.ofKind? .leftParen) halt
  let c ← cursor
  moveTo (c.nest (c.depth + 1))

/-- Take a closing parenthesis. -/
def closeParen (halt : Position → Halt) : Walk Unit := do
  consume (Token.ofKind? .rightParen) halt
  let c ← cursor
  moveTo (c.nest (c.depth - 1))

/-- Take a line break, with no look at where the tokens end. -/
def lineBreak : Walk (Option Unit) := do
  let c ← cursor
  if (← token c.current).kind = .newline then do
    moveTo (c.jump (c.current + 1))
    return some ()
  else return none

def skipNewlines : Walk Unit := Loop.run ⟨fun _ => lineBreak⟩ ()

/-- Take the next token past line breaks if it reads as a value. -/
def eatContinued (read : Token → Option α) : Walk (Option α) := do
  let c ← cursor
  let i := c.pastLines c.index
  match read (← token i) with
  | some a => do
    moveTo (c.jump (i + 1))
    return some a
  | none => return none

/-- The line of the last token taken that is no line break. -/
def previousLine : Walk Nat := do
  let c ← cursor
  if c.current ≤ c.tokens.length then return lastLine (c.tokens.take c.current)
  else throw (.outside c.current)

end Walk

end Eligibility
