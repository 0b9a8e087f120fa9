/-!
# Three-valued logic

A predicate of SQL is true, false or unknown on a row.

* `Truth`, with `and`, `or` and `not`; `Truth.all` and `Truth.any` of lists;
  `Truth.all_eq_true` and its like: when these are true or false;
* `Formula`: what is built of atoms by `AND`, `OR` and `NOT`, with its `atoms` and its value
  **`Formula.eval`**;
* `Formula.all`, `Formula.any`, `Formula.clauses`: chains;
* `Formula.bind`: formulas in the place of atoms.
-/

namespace Eligibility.Sql

/-- A truth value of SQL. -/
inductive Truth where
  | true | unknown | false
  deriving DecidableEq, Repr

def Truth.and : Truth → Truth → Truth
  | .false, _ | _, .false => .false
  | .true, .true => .true
  | _, _ => .unknown

def Truth.or : Truth → Truth → Truth
  | .true, _ | _, .true => .true
  | .false, .false => .false
  | _, _ => .unknown

def Truth.not : Truth → Truth
  | .true => .false
  | .unknown => .unknown
  | .false => .true

def Truth.ofBool (b : Bool) : Truth := if b then .true else .false

/-- The conjunction of a list. -/
def Truth.all (ts : List Truth) : Truth := ts.foldr .and .true

/-- The disjunction of a list. -/
def Truth.any (ts : List Truth) : Truth := ts.foldr .or .false

theorem Truth.and_assoc (a b c : Truth) : (a.and b).and c = a.and (b.and c) := by
  cases a <;> cases b <;> cases c <;> rfl

theorem Truth.or_assoc (a b c : Truth) : (a.or b).or c = a.or (b.or c) := by
  cases a <;> cases b <;> cases c <;> rfl

@[simp] theorem Truth.and_true (a : Truth) : a.and .true = a := by cases a <;> rfl

@[simp] theorem Truth.or_false (a : Truth) : a.or .false = a := by cases a <;> rfl

@[simp] theorem Truth.true_and (a : Truth) : Truth.true.and a = a := by cases a <;> rfl

@[simp] theorem Truth.false_or (a : Truth) : Truth.false.or a = a := by cases a <;> rfl

theorem Truth.all_cons (t : Truth) (ts : List Truth) : Truth.all (t :: ts) = t.and (Truth.all ts) :=
  rfl

theorem Truth.any_cons (t : Truth) (ts : List Truth) : Truth.any (t :: ts) = t.or (Truth.any ts) :=
  rfl

@[simp] theorem Truth.all_singleton (t : Truth) : Truth.all [t] = t := Truth.and_true t

@[simp] theorem Truth.any_singleton (t : Truth) : Truth.any [t] = t := Truth.or_false t

theorem Truth.all_append (ts us : List Truth) :
    Truth.all (ts ++ us) = (Truth.all ts).and (Truth.all us) := by
  induction ts with
  | nil => rw [List.nil_append]; exact (Truth.true_and _).symm
  | cons t ts ih => rw [List.cons_append, all_cons, all_cons, ih, Truth.and_assoc]

theorem Truth.any_append (ts us : List Truth) :
    Truth.any (ts ++ us) = (Truth.any ts).or (Truth.any us) := by
  induction ts with
  | nil => rw [List.nil_append]; exact (Truth.false_or _).symm
  | cons t ts ih => rw [List.cons_append, any_cons, any_cons, ih, Truth.or_assoc]

theorem Truth.not_eq_true {a : Truth} : a.not = .true ↔ a = .false := by
  cases a <;> decide

theorem Truth.not_eq_false {a : Truth} : a.not = .false ↔ a = .true := by
  cases a <;> decide

theorem Truth.and_eq_true {a b : Truth} : a.and b = .true ↔ a = .true ∧ b = .true := by
  cases a <;> cases b <;> decide

theorem Truth.and_eq_false {a b : Truth} : a.and b = .false ↔ a = .false ∨ b = .false := by
  cases a <;> cases b <;> decide

theorem Truth.or_eq_true {a b : Truth} : a.or b = .true ↔ a = .true ∨ b = .true := by
  cases a <;> cases b <;> decide

theorem Truth.or_eq_false {a b : Truth} : a.or b = .false ↔ a = .false ∧ b = .false := by
  cases a <;> cases b <;> decide

theorem Truth.all_eq_true {ts : List Truth} : Truth.all ts = .true ↔ ∀ t ∈ ts, t = .true := by
  induction ts with
  | nil => simp [all]
  | cons t ts ih => rw [all_cons, and_eq_true, ih, List.forall_mem_cons]

theorem Truth.all_eq_false {ts : List Truth} : Truth.all ts = .false ↔ ∃ t ∈ ts, t = .false := by
  induction ts with
  | nil => simp [all]
  | cons t ts ih => simp only [all_cons, and_eq_false, ih, List.mem_cons, exists_eq_or_imp]

theorem Truth.any_eq_true {ts : List Truth} : Truth.any ts = .true ↔ ∃ t ∈ ts, t = .true := by
  induction ts with
  | nil => simp [any]
  | cons t ts ih => simp only [any_cons, or_eq_true, ih, List.mem_cons, exists_eq_or_imp]

theorem Truth.any_eq_false {ts : List Truth} : Truth.any ts = .false ↔ ∀ t ∈ ts, t = .false := by
  induction ts with
  | nil => simp [any]
  | cons t ts ih => rw [any_cons, or_eq_false, ih, List.forall_mem_cons]

/-- What is built of atoms by the connectives. -/
inductive Formula (α : Type) where
  | const (b : Bool)
  | atom (a : α)
  | not (f : Formula α)
  | and (f g : Formula α)
  | or (f g : Formula α)
  deriving DecidableEq, Repr

namespace Formula

variable {α β : Type}

/-- The truth value under an assignment to the atoms. -/
def eval (v : α → Truth) : Formula α → Truth
  | const b => .ofBool b
  | atom a => v a
  | not f => (f.eval v).not
  | and f g => (f.eval v).and (g.eval v)
  | or f g => (f.eval v).or (g.eval v)

/-- The atoms from left to right. -/
def atoms : Formula α → List α
  | const _ => []
  | atom a => [a]
  | not f => f.atoms
  | and f g | or f g => f.atoms ++ g.atoms

/-- A formula for every atom. -/
def bind (g : α → Formula β) : Formula α → Formula β
  | const b => const b
  | atom a => g a
  | not f => not (f.bind g)
  | and f h => and (f.bind g) (h.bind g)
  | or f h => or (f.bind g) (h.bind g)

/-- The conjunction of a list, grouped to the left. -/
def all : List (Formula α) → Formula α
  | [] => const true
  | f :: fs => fs.foldl and f

/-- The disjunction of a list, grouped to the left. -/
def any : List (Formula α) → Formula α
  | [] => const false
  | f :: fs => fs.foldl or f

/-- A disjunction of conjunctions. -/
def clauses (fs : List (List (Formula α))) : Formula α := any (fs.map all)

theorem eval_all (v : α → Truth) (fs : List (Formula α)) :
    (all fs).eval v = Truth.all (fs.map (eval v)) := by
  have key : ∀ (fs : List (Formula α)) (f : Formula α),
      (fs.foldl and f).eval v = (f.eval v).and (Truth.all (fs.map (eval v))) := by
    intro fs
    induction fs with
    | nil => intro f; exact (Truth.and_true _).symm
    | cons g fs ih => intro f; rw [List.foldl_cons, ih, eval, Truth.and_assoc]; rfl
  cases fs with
  | nil => rfl
  | cons f fs => exact key fs f

theorem eval_any (v : α → Truth) (fs : List (Formula α)) :
    (any fs).eval v = Truth.any (fs.map (eval v)) := by
  have key : ∀ (fs : List (Formula α)) (f : Formula α),
      (fs.foldl or f).eval v = (f.eval v).or (Truth.any (fs.map (eval v))) := by
    intro fs
    induction fs with
    | nil => intro f; exact (Truth.or_false _).symm
    | cons g fs ih => intro f; rw [List.foldl_cons, ih, eval, Truth.or_assoc]; rfl
  cases fs with
  | nil => rfl
  | cons f fs => exact key fs f

theorem eval_clauses (v : α → Truth) (fs : List (List (Formula α))) :
    (clauses fs).eval v = Truth.any (fs.map fun gs => Truth.all (gs.map (eval v))) := by
  rw [clauses, eval_any, List.map_map]
  exact congrArg Truth.any (List.map_congr_left fun gs _ => eval_all v gs)

theorem atoms_foldl {op : Formula α → Formula α → Formula α}
    (hop : ∀ f g, (op f g).atoms = f.atoms ++ g.atoms) (fs : List (Formula α)) (f : Formula α) :
    (fs.foldl op f).atoms = f.atoms ++ fs.flatMap atoms := by
  induction fs generalizing f with
  | nil => exact (List.append_nil _).symm
  | cons g fs ih => rw [List.foldl_cons, ih, hop, List.append_assoc]; rfl

theorem atoms_clauses (fs : List (List (Formula α))) :
    (clauses fs).atoms = fs.flatMap (·.flatMap atoms) := by
  have hall : ∀ gs : List (Formula α), (all gs).atoms = gs.flatMap atoms := by
    intro gs
    cases gs with
    | nil => rfl
    | cons g gs => exact atoms_foldl (fun _ _ => rfl) gs g
  cases fs with
  | nil => rfl
  | cons gs fs =>
    rw [clauses, List.map_cons, any, atoms_foldl (fun _ _ => rfl), hall, List.flatMap_cons,
      List.flatMap_map]
    exact congrArg (_ ++ ·) (congrArg (List.flatMap · fs) (funext hall))

theorem bind_foldl (h : α → Formula β) {op : Formula α → Formula α → Formula α}
    {op' : Formula β → Formula β → Formula β}
    (hop : ∀ f g, (op f g).bind h = op' (f.bind h) (g.bind h)) (fs : List (Formula α))
    (f : Formula α) : (fs.foldl op f).bind h = (fs.map (bind h)).foldl op' (f.bind h) := by
  induction fs generalizing f with
  | nil => rfl
  | cons g fs ih => rw [List.foldl_cons, ih, hop]; rfl

theorem bind_all (h : α → Formula β) (fs : List (Formula α)) :
    (all fs).bind h = all (fs.map (bind h)) := by
  cases fs with
  | nil => rfl
  | cons f fs => exact bind_foldl h (fun _ _ => rfl) fs f

theorem bind_any (h : α → Formula β) (fs : List (Formula α)) :
    (any fs).bind h = any (fs.map (bind h)) := by
  cases fs with
  | nil => rfl
  | cons f fs => exact bind_foldl h (fun _ _ => rfl) fs f

theorem bind_clauses (h : α → Formula β) (fs : List (List (Formula α))) :
    (clauses fs).bind h = clauses (fs.map (·.map (bind h))) := by
  rw [clauses, bind_any, clauses, List.map_map, List.map_map]
  exact congrArg any (List.map_congr_left fun gs _ => bind_all h gs)

end Formula

end Eligibility.Sql
