/-!
# Cutting and replacing

* `upper`: ASCII letters to upper case, all else kept;
* `cut?`: the parts before and after the first occurrence of a character;
* `pieces`: all parts between separators;
* `replace`: write a text for every occurrence of a character.
-/

namespace Eligibility.Text

/-- ASCII letters in upper case; every other character is kept. -/
def upper (s : String) : String := .ofList (s.toList.map Char.toUpper)

/-- The parts before and after the first `sep`. -/
def cutChars? (sep : Char) : List Char → Option (List Char × List Char)
  | [] => none
  | c :: cs => if c = sep then some ([], cs) else (cutChars? sep cs).map fun p => (c :: p.1, p.2)

/-- The parts before and after the first `sep`. -/
def cut? (sep : Char) (s : String) : Option (String × String) :=
  (cutChars? sep s.toList).map fun p => (.ofList p.1, .ofList p.2)

/-- The parts between separators, empty ones included. -/
def pieces (isSep : Char → Bool) : List Char → List (List Char)
  | [] => [[]]
  | c :: cs =>
    if isSep c then [] :: pieces isSep cs
    else match pieces isSep cs with
      | [] => [[c]]
      | p :: ps => (c :: p) :: ps

/-- Write `text` for every `c`. -/
def replace (c : Char) (text : String) (s : String) : String :=
  .ofList (s.toList.flatMap fun x => if x = c then text.toList else [x])

end Eligibility.Text
