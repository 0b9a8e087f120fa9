import Eligibility.Proofs.Sql.Precedence
import Mathlib.Algebra.Ring.Int.Defs

/-!
# Reading scores

A score is a sum of numbers and of cases. A case has one number where its predicate is true and
another one where it is not.

* `Summand`, `Summand.eval`, **`scoreValue`**: exact sums of integers;
* `int?`, `summand?`, **`sum?`**: reading a sum, and what follows it;
* `Case.items`, `plusItems`, `shows_score`: the items of a score;
* **`sum?_score`**, `readSum?_scoreText`: the text of cases reads as those cases.
-/

namespace Eligibility.Sql

open Item (word symbol number)

/-- A part of a sum. -/
inductive Summand (α : Type) where
  | number (n : Int)
  /-- One number where the formula is true, another one where it is false or unknown. -/
  | choice (f : Formula α) (n m : Int)

namespace Summand

variable {α β : Type}

def eval (v : α → Truth) : Summand α → Int
  | number n => n
  | choice f n m => if f.eval v = .true then n else m

/-- A formula for every atom. -/
def bind (g : α → Formula β) : Summand α → Summand β
  | number n => number n
  | choice f n m => choice (f.bind g) n m

end Summand

/-- The value of a sum. -/
def scoreValue {α : Type} (v : α → Truth) (ss : List (Summand α)) : Int :=
  (ss.map (Summand.eval v)).sum

/-! ## Reading sums -/

/-- A whole number, and what follows it. -/
def int? : List Item → Option (Int × List Item)
  | .token (.number n) :: is => (Decimal.readNat? n.toList).map fun (k : Nat) => ((k : Int), is)
  | .token (.symbol "-") :: .token (.number n) :: is =>
    (Decimal.readNat? n.toList).map fun (k : Nat) => (-(k : Int), is)
  | _ => none

/-- What follows a keyword. -/
def after? (w : String) : List Item → Option (List Item)
  | [] => none
  | i :: is => if i.isWord w then some is else none

/-- A case after its `CASE WHEN`, and what follows it. -/
def choice? (is : List Item) : Option (Summand (List Item) × List Item) := do
  let (condition, is) ← untilEnd? true is
  let f ← formula? condition
  let is ← after? "THEN" is
  let (n, is) ← int? is
  let is ← after? "ELSE" is
  let (m, is) ← int? is
  let is ← after? "END" is
  return (.choice f n m, is)

/-- A summand, and what follows it. -/
def summand? (is : List Item) : Option (Summand (List Item) × List Item) :=
  match (after? "CASE" is).bind (after? "WHEN") with
  | some js => choice? js
  | none => (int? is).map fun p => (.number p.1, p.2)

theorem int?_le {is : List Item} {p : Int × List Item} (h : int? is = some p) :
    p.2.length < is.length := by
  unfold int? at h
  split at h
  · obtain ⟨k, -, rfl⟩ := Option.map_eq_some_iff.1 h
    exact Nat.lt_succ_self _
  · obtain ⟨k, -, rfl⟩ := Option.map_eq_some_iff.1 h
    exact Nat.lt_succ_of_lt (Nat.lt_succ_self _)
  · cases h

theorem after?_le {w : String} {is js : List Item} (h : after? w is = some js) :
    js.length < is.length := by
  cases is with
  | nil => cases h
  | cons i is =>
    rw [after?] at h
    split at h
    · cases h; exact Nat.lt_succ_self _
    · cases h

theorem untilEnd?_le {start : Bool} {is : List Item} {p : List Item × List Item}
    (h : untilEnd? start is = some p) : p.2.length ≤ is.length := by
  induction is generalizing start p with
  | nil => cases h
  | cons i is ih =>
    rw [untilEnd?] at h
    split at h
    · cases h; exact Nat.le_refl _
    · obtain ⟨q, hq, hp⟩ := Option.map_eq_some_iff.1 h
      have := ih hq
      rw [← hp]
      exact Nat.le_succ_of_le this

theorem choice?_le {is : List Item} {p : Summand (List Item) × List Item}
    (h : choice? is = some p) : p.2.length < is.length := by
  obtain ⟨⟨c, is₁⟩, h1, h⟩ := Option.bind_eq_some_iff.1 h
  obtain ⟨f, -, h⟩ := Option.bind_eq_some_iff.1 h
  obtain ⟨is₂, h2, h⟩ := Option.bind_eq_some_iff.1 h
  obtain ⟨⟨n, is₃⟩, h3, h⟩ := Option.bind_eq_some_iff.1 h
  obtain ⟨is₄, h4, h⟩ := Option.bind_eq_some_iff.1 h
  obtain ⟨⟨m, is₅⟩, h5, h⟩ := Option.bind_eq_some_iff.1 h
  obtain ⟨is₆, h6, h⟩ := Option.bind_eq_some_iff.1 h
  cases h
  have h1 := untilEnd?_le h1
  have h2 := after?_le h2
  have h3 := int?_le h3
  have h4 := after?_le h4
  have h5 := int?_le h5
  have h6 := after?_le h6
  simp only at h1 h2 h3 h4 h5 h6 ⊢
  omega

theorem summand?_le {is : List Item} {p : Summand (List Item) × List Item}
    (h : summand? is = some p) : p.2.length < is.length := by
  rw [summand?] at h
  split at h
  · rename_i js hj
    obtain ⟨ks, hk, hj⟩ := Option.bind_eq_some_iff.1 hj
    have := after?_le hk
    have := after?_le hj
    have := choice?_le h
    omega
  · obtain ⟨q, hq, rfl⟩ := Option.map_eq_some_iff.1 h
    exact int?_le hq

/-- Summands with `+` between them, and what follows them. -/
def sum? (is : List Item) : Option (List (Summand (List Item)) × List Item) :=
  match _h : summand? is with
  | none => none
  | some (s, .token (.symbol "+") :: rest) => (sum? rest).map fun p => (s :: p.1, p.2)
  | some (s, rest) => some ([s], rest)
termination_by is.length
decreasing_by exact Nat.lt_of_succ_lt (summand?_le _h)

/-- The sum that the text of a score reads as. -/
def readSum? (s : String) : Option (List (Summand (List Item))) :=
  (items? s).bind fun is => match sum? is with
    | some (ss, []) => some ss
    | _ => none

/-! ## Text of scores -/

def Case.items (c : Case) : List Item :=
  word "CASE" :: word "WHEN" :: (c.condition.items ++ word "THEN" ::
    (intItems c.value.toInt ++ [word "ELSE", number "0", word "END"]))

/-- Lists of items with `+` between them. -/
def plusItems : List (List Item) → List Item
  | [] => [number "0"]
  | [is] => is
  | is :: js :: iss => is ++ symbol "+" :: plusItems (js :: iss)

theorem Case.shows {c : Case} (h : c.condition.Clean IsComplete) : Shows c.text c.items := by
  have hcase : Opens "CASE WHEN " [word "CASE", word "WHEN"] := opens_of_tokens (by decide +kernel)
  have hthen : Opens " THEN " [word "THEN"] := opens_between (s := "THEN") rfl
  have helse : Shows " ELSE 0 END" [word "ELSE", number "0", word "END"] :=
    shows_of_tokens (by decide +kernel)
  have := (((hcase.shows (Predicate.shows h)).opens hthen (by decide)).shows
    (shows_int c.value.toInt)).append helse (by decide)
  exact this.cast rfl (by simp [items])

theorem shows_score {cs : List Case} (h : ∀ c ∈ cs, c.condition.Clean IsComplete) :
    Shows (scoreText cs) (plusItems (cs.map Case.items)) := by
  have hplus : Opens " + " [symbol "+"] := opens_of_tokens (by decide +kernel)
  have key (cs : List Case) (hn : cs ≠ []) (h : ∀ c ∈ cs, c.condition.Clean IsComplete) :
      Shows (" + ".intercalate (cs.map Case.text)) (plusItems (cs.map Case.items)) := by
    induction cs with
    | nil => exact absurd rfl hn
    | cons c cs ih =>
      have hc := List.forall_mem_cons.1 h
      cases cs with
      | nil => exact (Case.shows hc.1).cast (by simp) rfl
      | cons d cs =>
        have := ((Case.shows hc.1).opens hplus (by decide)).shows (ih (List.cons_ne_nil _ _) hc.2)
        exact this.cast (by simp [String.append_assoc]) (by simp [plusItems])
  rw [scoreText]
  split
  · rename_i hn; subst hn
    exact shows_of_tokens (by decide +kernel)
  · rename_i hn; exact key cs hn h

/-! ## Scores are read back -/

theorem int?_intItems (i : Int) (is : List Item) : int? (intItems i ++ is) = some (i, is) := by
  rw [intItems]
  split
  · simp only [List.cons_append, List.nil_append, int?]
    rw [Decimal.readNat?_repr, Option.map_some, show -(i.natAbs : Int) = i by omega]
  · simp only [List.cons_append, List.nil_append, int?]
    rw [Decimal.readNat?_repr, Option.map_some, show (i.natAbs : Int) = i by omega]

/-- The summand that a case is. -/
def Case.summand (c : Case) : Summand (List Item) :=
  .choice (.clauses c.condition.clauses) c.value.toInt 0

theorem summand?_case {c : Case} (hl : c.condition.Layered) (h : c.condition.Clean IsLiteral)
    (is : List Item) : summand? (c.items ++ is) = some (c.summand, is) := by
  have hr := (Predicate.reads hl h).clauses
  have hthen := hr.untilEnd? (i := word "THEN") rfl
    (intItems c.value.toInt ++ (word "ELSE" :: number "0" :: word "END" :: is))
  have hitems : c.items ++ is = word "CASE" :: word "WHEN" :: (c.condition.items ++ word "THEN" ::
      (intItems c.value.toInt ++ (word "ELSE" :: number "0" :: word "END" :: is))) := by
    simp [Case.items]
  rw [hitems]
  change choice? _ = _
  rw [choice?, hthen]
  change (formula? c.condition.items).bind _ = _
  rw [hr.formula?]
  change (int? _).bind _ = _
  rw [int?_intItems]
  rfl

theorem sum?_plus {is rest : List Item} {s : Summand (List Item)}
    (h : summand? is = some (s, symbol "+" :: rest)) :
    sum? is = (sum? rest).map fun p => (s :: p.1, p.2) := by
  rw [sum?]
  split
  · rename_i hn; rw [h] at hn; cases hn
  · rename_i hs; rw [h] at hs; cases hs; rfl
  · rename_i hno hs; rw [h] at hs; cases hs; exact absurd rfl (hno _)

theorem sum?_last {is rest : List Item} {s : Summand (List Item)}
    (h : summand? is = some (s, rest)) (hr : ∀ js, rest ≠ symbol "+" :: js) :
    sum? is = some ([s], rest) := by
  rw [sum?]
  split
  · rename_i hn; rw [h] at hn; cases hn
  · rename_i hs; rw [h] at hs; cases hs; exact absurd rfl (hr _)
  · rename_i hs; rw [h] at hs; cases hs; rfl

/-- The summands of cases; no cases are a zero. -/
def scoreSummands (cs : List Case) : List (Summand (List Item)) :=
  if cs = [] then [.number 0] else cs.map Case.summand

/-- The text of cases reads as those cases. -/
theorem sum?_score {cs : List Case}
    (h : ∀ c ∈ cs, c.condition.Layered ∧ c.condition.Clean IsLiteral) {rest : List Item}
    (hr : ∀ js, rest ≠ symbol "+" :: js) :
    sum? (plusItems (cs.map Case.items) ++ rest) = some (scoreSummands cs, rest) := by
  rw [scoreSummands]
  split
  · rename_i hn; subst hn
    refine sum?_last ?_ hr
    have : int? (number "0" :: rest) = some (0, rest) := int?_intItems 0 rest
    rw [summand?]
    change (int? (number "0" :: rest)).map _ = _
    rw [this]; rfl
  · rename_i hn
    induction cs with
    | nil => exact absurd rfl hn
    | cons c cs ih =>
      obtain ⟨hc, hcs⟩ := List.forall_mem_cons.1 h
      cases cs with
      | nil => exact sum?_last (summand?_case hc.1 hc.2 rest) hr
      | cons d cs =>
        have hd := ih hcs (List.cons_ne_nil _ _)
        simp only [List.map_cons, plusItems, List.append_assoc, List.cons_append] at hd ⊢
        rw [sum?_plus (summand?_case hc.1 hc.2 _), hd]
        rfl

theorem readSum?_scoreText {cs : List Case}
    (h : ∀ c ∈ cs, c.condition.Layered ∧ c.condition.Clean IsLiteral) :
    readSum? (scoreText cs) = some (scoreSummands cs) := by
  have hs := shows_score fun c hc => (h c hc).2.mono fun _ => IsLiteral.isComplete
  have hsum : sum? (plusItems (cs.map Case.items) ++ []) = some (scoreSummands cs, []) :=
    sum?_score h nofun
  rw [List.append_nil] at hsum
  rw [readSum?, hs.items?, Option.bind_some, hsum]

end Eligibility.Sql
