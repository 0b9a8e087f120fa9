import Eligibility.Json.Number

/-!
# JSON

* `Json`, with `Json.get` and the writers of optional values, lists and places;
* **`Json.text`**: a document as text;
* **`Json.reread?`**: the document that is read from that text.
-/

namespace Eligibility

/-- A JSON document. -/
inductive Json where
  | null
  | bool (b : Bool)
  | int (n : Int)
  | float (x : Binary64)
  | string (s : String)
  | array (items : List Json)
  | object (members : List (String × Json))

namespace Json

/-! ## Building and looking up -/

def ofNat (n : Nat) : Json := int n

def ofInt64 (n : Int64) : Json := int n.toInt

/-- An absent value is null. -/
def ofOption {α : Type} (f : α → Json) : Option α → Json
  | none => null
  | some a => f a

def ofList {α : Type} (f : α → Json) (l : List α) : Json := array (l.map f)

/-- A value under the name of its kind. -/
def tagged (name : String) (j : Json) : Json := object [(name, j)]

/-- The member with a name; null if there is none. -/
def get (j : Json) (name : String) : Json :=
  match j with
  | object ms => (ms.lookup name).getD null
  | _ => null

/-! ## Reading -/

def toBool? : Json → Option Bool
  | bool b => some b
  | _ => none

def toText? : Json → Option String
  | string s => some s
  | _ => none

def toNat? : Json → Option Nat
  | int (.ofNat n) => some n
  | _ => none

/-- A whole number within the 64-bit integers. -/
def toInt64? : Json → Option Int64
  | int n => if Int64.minValue.toInt ≤ n ∧ n ≤ Int64.maxValue.toInt then some (.ofInt n) else none
  | _ => none

/-- Null is an absent value. -/
def toOption? {α : Type} (f : Json → Option α) : Json → Option (Option α)
  | null => some none
  | j => (f j).map some

def toList? {α : Type} (f : Json → Option α) : Json → Option (List α)
  | array js => js.mapM f
  | _ => none

/-! ## Text -/

/-- A character of a string. Quotes, backslashes and control characters are escaped. -/
def escape (c : Char) : List Char :=
  if c = '"' ∨ c = '\\' then ['\\', c]
  else if c.toNat < 0x20 then
    ['\\', 'u', '0', '0', Nat.digitChar (c.toNat / 16), Nat.digitChar (c.toNat % 16)]
  else [c]

def quoted (s : String) : String := .ofList ('"' :: s.toList.flatMap escape ++ ['"'])

mutual

/-- A document as text, without blanks. -/
def text : Json → String
  | null => "null"
  | bool true => "true"
  | bool false => "false"
  | int n => toString n
  | float x => JsonNumber.text x
  | string s => quoted s
  | array js => "[" ++ ",".intercalate (itemTexts js) ++ "]"
  | object ms => "\x7b" ++ ",".intercalate (memberTexts ms) ++ "\x7d"

def itemTexts : List Json → List String
  | [] => []
  | j :: js => j.text :: itemTexts js

def memberTexts : List (String × Json) → List String
  | [] => []
  | (k, j) :: ms => (quoted k ++ ":" ++ j.text) :: memberTexts ms

end

/-! ## Reading the text back -/

/-- Arrays and objects are read up to this many inside one another. -/
def deepest : Nat := 127

mutual

/-- What is read from the text of a document in which `depth` more arrays and objects may be opened.
Words, texts and whole numbers are read as they are; a number that is not finite as null. None if
the document is nested too deep or holds a number that is read as infinite. -/
def reread? (depth : Nat) : Json → Option Json
  | float x => if x.isFinite then (JsonNumber.reread? x).map float else some null
  | array js => if depth = 0 then none else (rereadItems? (depth - 1) js).map array
  | object ms => if depth = 0 then none else (rereadMembers? (depth - 1) ms).map object
  | j => some j

def rereadItems? (depth : Nat) : List Json → Option (List Json)
  | [] => some []
  | j :: js => return (← j.reread? depth) :: (← rereadItems? depth js)

def rereadMembers? (depth : Nat) : List (String × Json) → Option (List (String × Json))
  | [] => some []
  | (k, j) :: ms => return (k, ← j.reread? depth) :: (← rereadMembers? depth ms)

end

end Json

end Eligibility
