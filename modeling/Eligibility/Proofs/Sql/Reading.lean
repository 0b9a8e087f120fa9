import Eligibility.Number.Decimal
import Eligibility.Proofs.Sql.Formula
import Eligibility.Proofs.Sql.Item

/-!
# Reading predicates

The items of a predicate are cut at every `OR`, and each part at every `AND` but the one that
belongs to a `BETWEEN`. What is left is an operand: `NOT` negates the operand after it, parentheses
around the whole operand hold a predicate, and any other operand is an **elementary predicate**,
whatever stands inside its own parentheses.

* `elementary`: `1 = 1` and `1 = 0` are constants, `NOT IN` is the negation of `IN`, and every other
  elementary predicate is an atom;
* `cutOr`, `cutAnd`, `operand?`, `clauses?`, **`formula?`**;
* `ReadsClauses`, `ReadsFactors`, `ReadsOperand`: what a stretch of items reads as inside longer
  ones, with the rules for `OR`, `AND`, `NOT` and parentheses.
-/

namespace Eligibility.Sql

/-- The item is a keyword, in any letter case. -/
def Item.isWord (w : String) : Item → Bool
  | .token (.word s) => Text.upper s == w
  | _ => false

/-! ## Elementary predicates -/

/-- Whether two whole numbers that are compared are equal. -/
def constant? : List Item → Option Bool
  | [.token (.number m), .token (.symbol "="), .token (.number n)] => do
    let a ← Decimal.readNat? m.toList
    let b ← Decimal.readNat? n.toList
    return a == b
  | _ => none

/-- The items without the `NOT` of a `NOT IN`. -/
def included? : List Item → Option (List Item)
  | [] => none
  | i :: is =>
    if i.isWord "NOT" && is.head?.any (Item.isWord "IN") then some is
    else (included? is).map (i :: ·)

/-- What an elementary predicate says. -/
def elementary (is : List Item) : Formula (List Item) :=
  match constant? is with
  | some b => .const b
  | none =>
    match included? is with
    | some js => .not (.atom js)
    | none => .atom is

/-! ## Predicates -/

/-- An item with the reading of what stands inside it. -/
abbrev Marked := Item × Option (Formula (List Item))

/-- Put an element in front of the first list. -/
def prependTo {α : Type} (x : α) : List (List α) → List (List α)
  | [] => [[x]]
  | p :: ps => (x :: p) :: ps

/-- The parts between the `OR`s. -/
def cutOr : List Marked → List (List Marked)
  | [] => [[]]
  | x :: xs => if x.1.isWord "OR" then [] :: cutOr xs else prependTo x (cutOr xs)

/-- The parts between the `AND`s; in a `range` an `AND` is yet to come that cuts nothing. -/
def cutAnd (range : Bool) : List Marked → List (List Marked)
  | [] => [[]]
  | x :: xs =>
    if x.1.isWord "AND" then
      if range then prependTo x (cutAnd false xs) else [] :: cutAnd false xs
    else prependTo x (cutAnd (range || x.1.isWord "BETWEEN") xs)

/-- The reading of an operand. -/
def operand? : List Marked → Option (Formula (List Item))
  | [] => none
  | x :: xs =>
    if x.1.isWord "NOT" then (operand? xs).map .not
    else match x.1, xs with
      | .group _, [] => x.2
      | _, _ => some (elementary ((x :: xs).map (·.1)))

/-- The readings of all operands, disjunct by disjunct. -/
def clauses? (xs : List Marked) : Option (List (List (Formula (List Item)))) :=
  (cutOr xs).mapM fun d => (cutAnd false d).mapM operand?

mutual

/-- The reading of what stands inside an item. -/
def Item.inner? : Item → Option (Formula (List Item))
  | .token _ => none
  | .group is => (clauses? (marks is)).map .clauses

/-- The items, each with the reading of what stands inside it. -/
def marks : List Item → List Marked
  | [] => []
  | i :: is => (i, i.inner?) :: marks is

end

/-- The reading of the items of a predicate. -/
def formula? (is : List Item) : Option (Formula (List Item)) := (clauses? (marks is)).map .clauses

/-- The reading of the text of a predicate. -/
def read? (s : String) : Option (Formula (List Item)) := (items? s).bind formula?

/-- The item joins operands. -/
def Item.isConnective (i : Item) : Bool := i.isWord "AND" || i.isWord "OR" || i.isWord "NOT"

/-- The item ends the predicate before it: `THEN` that of a case, `ORDER` that of a query. -/
def Item.ends (i : Item) : Bool := i.isWord "THEN" || i.isWord "ORDER"

/-- The items of a predicate, and those from its end on. Where an operand starts, the word that
would end it is a name. -/
def untilEnd? (start : Bool) : List Item → Option (List Item × List Item)
  | [] => none
  | i :: is =>
    if i.ends && !start then some ([], i :: is)
    else (untilEnd? i.isConnective is).map fun p => (i :: p.1, p.2)

theorem marks_append (is js : List Item) : marks (is ++ js) = marks is ++ marks js := by
  induction is with
  | nil => rfl
  | cons i is ih => rw [List.cons_append, marks, marks, ih]; rfl

theorem map_fst_marks (is : List Item) : (marks is).map (·.1) = is := by
  induction is with
  | nil => rfl
  | cons i is ih => rw [marks, List.map_cons, ih]

/-! ## Cutting -/

/-- Put a list in front of the first list. -/
def prependAll {α : Type} (xs : List α) (ps : List (List α)) : List (List α) :=
  xs.foldr prependTo ps

theorem prependTo_append {α : Type} (x : α) {ps : List (List α)} (h : ps ≠ [])
    (qs : List (List α)) : prependTo x (ps ++ qs) = prependTo x ps ++ qs := by
  cases ps with
  | nil => exact absurd rfl h
  | cons p ps => rfl

theorem prependAll_nil_cons {α : Type} (xs : List α) (ps : List (List α)) :
    prependAll xs ([] :: ps) = xs :: ps := by
  induction xs with
  | nil => rfl
  | cons x xs ih =>
    rw [show prependAll (x :: xs) ([] :: ps) = prependTo x (prependAll xs ([] :: ps)) from rfl, ih]
    rfl

theorem cutOr_ne_nil (xs : List Marked) : cutOr xs ≠ [] := by
  cases xs with
  | nil => exact List.cons_ne_nil _ _
  | cons x xs =>
    rw [cutOr]
    split
    · exact List.cons_ne_nil _ _
    · cases cutOr xs <;> exact List.cons_ne_nil _ _

theorem cutOr_cons {x : Marked} (hx : x.1.isWord "OR" = true) (xs : List Marked) :
    cutOr (x :: xs) = [] :: cutOr xs := by
  rw [cutOr, if_pos hx]

theorem cutAnd_cons {x : Marked} (hx : x.1.isWord "AND" = true) (xs : List Marked) :
    cutAnd false (x :: xs) = [] :: cutAnd false xs := by
  rw [cutAnd, if_pos hx, if_neg (by decide)]

theorem cutOr_append {x : Marked} (hx : x.1.isWord "OR" = true) (xs ys : List Marked) :
    cutOr (xs ++ x :: ys) = cutOr xs ++ cutOr ys := by
  induction xs with
  | nil => exact cutOr_cons hx ys
  | cons z xs ih =>
    rw [List.cons_append, cutOr, cutOr, ih]
    split
    · rfl
    · exact prependTo_append z (cutOr_ne_nil xs) _

theorem cutOr_of_forall {xs : List Marked} (h : ∀ x ∈ xs, x.1.isWord "OR" = false) :
    cutOr xs = [xs] := by
  induction xs with
  | nil => rfl
  | cons x xs ih =>
    rw [cutOr, if_neg (by simp [h x List.mem_cons_self]),
      ih fun y hy => h y (List.mem_cons_of_mem _ hy)]
    rfl

/-! ## Reading in parts -/

/-- The items hold no `OR` outside parentheses. -/
def NoOr (is : List Item) : Prop := ∀ i ∈ is, i.isWord "OR" = false

/-- No part ends inside the items. -/
def Uncut (is : List Item) : Prop :=
  ∀ xs, cutAnd false (marks is ++ xs) = prependAll (marks is) (cutAnd false xs)

/-- A part ends where the items end. -/
def Closed (is : List Item) : Prop :=
  ∀ (x : Marked) (xs : List Marked), x.1.isWord "AND" = true →
    cutAnd false (marks is ++ x :: xs) = cutAnd false (marks is) ++ cutAnd false xs

/-- The predicate does not end in the items, and they end with an operand. -/
def NoEnd (is : List Item) : Prop :=
  ∀ js, untilEnd? true (is ++ js) = (untilEnd? false js).map fun p => (is ++ p.1, p.2)

theorem NoEnd.join {is js : List Item} {i : Item} (hi : i.isConnective = true)
    (ht : i.ends = false) (h : NoEnd is) (h' : NoEnd js) : NoEnd (is ++ i :: js) := by
  intro ks
  rw [List.append_assoc, List.cons_append, h, untilEnd?, ht, Bool.false_and,
    if_neg Bool.false_ne_true, hi, h', Option.map_map, Option.map_map]
  refine congrArg (Option.map · _) (funext fun p => ?_)
  simp

theorem NoOr.append {is js : List Item} (h : NoOr is) (h' : NoOr js) : NoOr (is ++ js) :=
  fun i hi => (List.mem_append.1 hi).elim (h i) (h' i)

theorem NoOr.marks {is : List Item} (h : NoOr is) : ∀ x ∈ marks is, x.1.isWord "OR" = false := by
  intro x hx
  refine h x.1 ?_
  rw [← map_fst_marks is]
  exact List.mem_map_of_mem hx

theorem Uncut.closed {is : List Item} (h : Uncut is) : Closed is := by
  intro x xs hx
  have h0 := h []
  rw [List.append_nil] at h0
  rw [h, h0, cutAnd_cons hx, prependAll_nil_cons]
  exact congrArg (· ++ _) (prependAll_nil_cons _ []).symm

theorem Uncut.cutAnd {is : List Item} (h : Uncut is) : cutAnd false (marks is) = [marks is] := by
  have := h []
  rwa [List.append_nil, Sql.cutAnd, prependAll_nil_cons] at this

theorem Closed.append {is js : List Item} {i : Item} (hi : i.isWord "AND" = true) (h : Closed is)
    (h' : Closed js) : Closed (is ++ i :: js) := by
  intro x xs hx
  rw [marks_append, marks, List.append_assoc, List.cons_append, h _ _ hi, h _ _ hi, h' _ _ hx,
    List.append_assoc]

/-! ## What items read as -/

/-- The items are one operand, with the reading `f`. -/
structure ReadsOperand (is : List Item) (f : Formula (List Item)) : Prop where
  noOr : NoOr is
  uncut : Uncut is
  noEnd : NoEnd is
  reads : operand? (marks is) = some f

/-- The items are operands joined by `AND`, with the readings `fs`. -/
structure ReadsFactors (is : List Item) (fs : List (Formula (List Item))) : Prop where
  noOr : NoOr is
  closed : Closed is
  noEnd : NoEnd is
  reads : (cutAnd false (marks is)).mapM operand? = some fs

/-- The items are operands joined by `AND` and `OR`, with the readings `fss`. -/
structure ReadsClauses (is : List Item) (fss : List (List (Formula (List Item)))) : Prop where
  noEnd : NoEnd is
  reads : clauses? (marks is) = some fss

theorem ReadsOperand.factors {is : List Item} {f : Formula (List Item)} (h : ReadsOperand is f) :
    ReadsFactors is [f] where
  noOr := h.noOr
  closed := h.uncut.closed
  noEnd := h.noEnd
  reads := by rw [h.uncut.cutAnd, List.mapM_cons, h.reads]; rfl

theorem ReadsFactors.clauses {is : List Item} {fs : List (Formula (List Item))}
    (h : ReadsFactors is fs) : ReadsClauses is [fs] where
  noEnd := h.noEnd
  reads := by
    rw [clauses?, cutOr_of_forall h.noOr.marks, List.mapM_cons, h.reads]; rfl

theorem ReadsFactors.and {is js : List Item} {fs gs : List (Formula (List Item))}
    (h : ReadsFactors is fs) (h' : ReadsFactors js gs) :
    ReadsFactors (is ++ .token (.word "AND") :: js) (fs ++ gs) where
  noOr := h.noOr.append fun i hi => (List.mem_cons.1 hi).elim (fun e => by rw [e]; rfl) (h'.noOr i)
  closed := h.closed.append rfl h'.closed
  noEnd := h.noEnd.join rfl rfl h'.noEnd
  reads := by
    rw [marks_append, marks, h.closed _ _ rfl, List.mapM_append, h.reads, h'.reads]; rfl

theorem ReadsClauses.or {is js : List Item} {fss gss : List (List (Formula (List Item)))}
    (h : ReadsClauses is fss) (h' : ReadsClauses js gss) :
    ReadsClauses (is ++ .token (.word "OR") :: js) (fss ++ gss) where
  noEnd := h.noEnd.join rfl rfl h'.noEnd
  reads := by
    have h1 := h.reads
    have h2 := h'.reads
    rw [clauses?] at h1 h2 ⊢
    rw [marks_append, marks, cutOr_append rfl, List.mapM_append, h1, h2]; rfl

theorem ReadsOperand.not {is : List Item} {f : Formula (List Item)} (h : ReadsOperand is f) :
    ReadsOperand (.token (.word "NOT") :: is) (.not f) where
  noOr i hi := (List.mem_cons.1 hi).elim (fun e => by rw [e]; rfl) (h.noOr i)
  uncut xs := by
    change prependTo _ (cutAnd false (marks is ++ xs)) = _
    rw [h.uncut]; rfl
  noEnd js := by
    rw [List.cons_append, untilEnd?, if_neg (by decide),
      show Item.isConnective (.token (.word "NOT")) = true from rfl, h.noEnd, Option.map_map]
    rfl
  reads := by
    change (operand? (marks is)).map Formula.not = _
    rw [h.reads]; rfl

theorem ReadsClauses.group {is : List Item} {fss : List (List (Formula (List Item)))}
    (h : ReadsClauses is fss) : ReadsOperand [.group is] (.clauses fss) where
  noOr i hi := by rw [List.mem_singleton.1 hi]; rfl
  uncut _ := rfl
  noEnd _ := rfl
  reads := by
    change (clauses? (marks is)).map Formula.clauses = _
    rw [h.reads]; rfl

theorem ReadsClauses.formula? {is : List Item} {fss : List (List (Formula (List Item)))}
    (h : ReadsClauses is fss) : formula? is = some (.clauses fss) := by
  rw [Sql.formula?, h.reads]; rfl

/-- A predicate ends at the first item behind it that ends predicates. -/
theorem ReadsClauses.untilEnd? {is : List Item} {fss : List (List (Formula (List Item)))}
    (h : ReadsClauses is fss) {i : Item} (hi : i.ends = true) (js : List Item) :
    untilEnd? true (is ++ i :: js) = some (is, i :: js) := by
  rw [h.noEnd, Sql.untilEnd?, hi, Bool.not_false, Bool.true_and, if_pos rfl, Option.map_some,
    List.append_nil]

/-! ## Elementary predicates in parts -/

/-- The item neither joins operands nor belongs to a range nor ends the predicate. -/
def Item.Quiet (i : Item) : Prop :=
  i.isConnective = false ∧ i.isWord "BETWEEN" = false ∧ i.ends = false

/-- The item may start an elementary predicate. -/
def Item.Starts (i : Item) : Prop := i.isConnective = false ∧ i.isWord "BETWEEN" = false

instance (i : Item) : Decidable i.Quiet := inferInstanceAs (Decidable (_ ∧ _ ∧ _))

theorem Item.Starts.isWord {i : Item} (h : i.Starts) :
    i.isWord "AND" = false ∧ i.isWord "OR" = false ∧ i.isWord "NOT" = false := by
  have := h.1
  simp only [isConnective, Bool.or_eq_false_iff] at this
  exact ⟨this.1.1, this.1.2, this.2⟩

theorem Item.Quiet.starts {i : Item} (h : i.Quiet) : i.Starts := ⟨h.1, h.2.1⟩

theorem cutAnd_append {is : List Item}
    (h : ∀ i ∈ is, i.isWord "AND" = false ∧ i.isWord "BETWEEN" = false) (range : Bool)
    (xs : List Marked) :
    cutAnd range (marks is ++ xs) = prependAll (marks is) (cutAnd range xs) := by
  induction is with
  | nil => rfl
  | cons i is ih =>
    obtain ⟨h1, h2⟩ := h i List.mem_cons_self
    rw [marks, List.cons_append, cutAnd, if_neg (by simp [h1]), h2, Bool.or_false,
      ih fun j hj => h j (List.mem_cons_of_mem _ hj)]
    rfl

theorem uncut_of_forall {is : List Item}
    (h : ∀ i ∈ is, i.isWord "AND" = false ∧ i.isWord "BETWEEN" = false) : Uncut is :=
  cutAnd_append h false

/-- The `AND` of a range cuts nothing. -/
theorem uncut_between {is js ks : List Item}
    (his : ∀ i ∈ is, i.isWord "AND" = false ∧ i.isWord "BETWEEN" = false)
    (hjs : ∀ i ∈ js, i.isWord "AND" = false ∧ i.isWord "BETWEEN" = false)
    (hks : ∀ i ∈ ks, i.isWord "AND" = false ∧ i.isWord "BETWEEN" = false) :
    Uncut (is ++ .token (.word "BETWEEN") :: (js ++ .token (.word "AND") :: ks)) := by
  intro xs
  have hrange (x : Marked) (ys : List Marked) (hx : x.1.isWord "AND" = true) :
      cutAnd true (x :: ys) = prependTo x (cutAnd false ys) := by rw [cutAnd, if_pos hx, if_pos rfl]
  have hopen (x : Marked) (ys : List Marked) (hx : x.1.isWord "AND" = false)
      (hb : x.1.isWord "BETWEEN" = true) :
      cutAnd false (x :: ys) = prependTo x (cutAnd true ys) := by
    rw [cutAnd, if_neg (by simp [hx]), hb]; rfl
  simp only [marks_append, marks, List.append_assoc, List.cons_append]
  rw [cutAnd_append his, hopen _ _ rfl rfl, cutAnd_append hjs, hrange _ _ rfl, cutAnd_append hks]
  simp only [prependAll, List.foldr_append, List.foldr_cons]

theorem noEnd_cons {i : Item} (hi : i.isConnective = false) {is : List Item}
    (h : ∀ j ∈ is, j.isConnective = false ∧ j.ends = false) : NoEnd (i :: is) := by
  have key : ∀ js, untilEnd? false (is ++ js) =
      (untilEnd? false js).map fun p => (is ++ p.1, p.2) := by
    induction is with
    | nil => intro js; exact (Option.map_id_apply ..).symm
    | cons j is ih =>
      intro js
      have hj := h j List.mem_cons_self
      rw [List.cons_append, untilEnd?, hj.2, Bool.false_and, if_neg Bool.false_ne_true, hj.1,
        ih (fun k hk => h k (List.mem_cons_of_mem _ hk)), Option.map_map]
      rfl
  intro js
  rw [List.cons_append, untilEnd?, Bool.not_true, Bool.and_false, if_neg Bool.false_ne_true, hi,
    key, Option.map_map]
  rfl

theorem readsOperand_elementary {i : Item} (hi : i.Starts) {is : List Item} (hn : is ≠ [])
    (ho : NoOr is) (hu : Uncut (i :: is)) (ht : NoEnd (i :: is)) :
    ReadsOperand (i :: is) (elementary (i :: is)) where
  noOr j hj := (List.mem_cons.1 hj).elim (fun e => by rw [e]; exact hi.isWord.2.1) (ho j)
  uncut := hu
  noEnd := ht
  reads := by
    obtain ⟨j, js, rfl⟩ := List.exists_cons_of_ne_nil hn
    rw [marks, operand?, if_neg (by simp [hi.isWord.2.2])]
    simp only [marks, List.map_cons, map_fst_marks]
    intro _ _ h; cases h

theorem readsOperand_of_quiet {i : Item} (hi : i.Starts) {is : List Item} (hn : is ≠ [])
    (h : ∀ j ∈ is, j.Quiet) : ReadsOperand (i :: is) (elementary (i :: is)) := by
  refine readsOperand_elementary hi hn (fun j hj => (h j hj).starts.isWord.2.1)
    (uncut_of_forall ?_) (noEnd_cons hi.1 fun j hj => ⟨(h j hj).1, (h j hj).2.2⟩)
  intro j hj
  rcases List.mem_cons.1 hj with rfl | hj
  · exact ⟨hi.isWord.1, hi.2⟩
  · exact ⟨(h j hj).starts.isWord.1, (h j hj).2.1⟩

/-! ## What elementary predicates say -/

theorem constant?_append_group (is js : List Item) : constant? (is ++ [.group js]) = none := by
  rw [constant?.eq_def]
  split
  · rename_i m n h
    have := congrArg List.getLast? h
    rw [List.getLast?_append] at this
    simp at this
  · rfl

theorem included?_append {is : List Item} (h : ∀ i ∈ is, i.isWord "NOT" = false)
    (js : List Item) : included? (is ++ js) = (included? js).map (is ++ ·) := by
  induction is with
  | nil => exact (Option.map_id_apply ..).symm
  | cons i is ih =>
    rw [List.cons_append, included?, h i List.mem_cons_self, Bool.false_and,
      if_neg Bool.false_ne_true, ih fun j hj => h j (List.mem_cons_of_mem _ hj), Option.map_map]
    rfl

theorem elementary_in {is : List Item} (h : ∀ i ∈ is, i.isWord "NOT" = false) (js : List Item) :
    elementary (is ++ [.token (.word "IN"), .group js]) =
      .atom (is ++ [.token (.word "IN"), .group js]) := by
  have hc : constant? (is ++ [.token (.word "IN"), .group js]) = none := by
    have := constant?_append_group (is ++ [.token (.word "IN")]) js
    rwa [List.append_assoc] at this
  rw [elementary, hc, included?_append h]; rfl

theorem elementary_notIn {is : List Item} (h : ∀ i ∈ is, i.isWord "NOT" = false)
    (js : List Item) :
    elementary (is ++ [.token (.word "NOT"), .token (.word "IN"), .group js]) =
      .not (elementary (is ++ [.token (.word "IN"), .group js])) := by
  have hc : constant? (is ++ [.token (.word "NOT"), .token (.word "IN"), .group js]) = none := by
    have := constant?_append_group (is ++ [.token (.word "NOT"), .token (.word "IN")]) js
    rwa [List.append_assoc] at this
  rw [elementary_in h, elementary, hc, included?_append h]; rfl

end Eligibility.Sql
