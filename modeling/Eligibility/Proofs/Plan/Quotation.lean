import Eligibility.Proofs.Plan.Condition
import Eligibility.Proofs.Sql.Alike

/-!
# Strings stay in their literals

Two conditions that differ only in the contents of string operands have predicates that differ only
in the string literals of those operands. Patterns are left out: their literals are written from
the contents in another way.

* `Value.blank`, `Leaf.blank`, **`Condition.blank`**: a condition without the contents of its
  strings;
* `Leaf.strings`, **`Condition.strings`**: the contents that the predicate writes, in order;
* `Leaf.Written`, `Condition.strings_of_written`: these are the contents of the operands of the
  leaves, save for leaves that have nothing to be compared with or computed on;
* `Condition.alike`: the predicates of two such conditions are alike;
* **`Condition.tokens_aligned`**: and so are the tokens of their texts.
-/

namespace Eligibility

open Sql

/-! ## Contents of strings -/

namespace Value

/-- The value without the content of a string. -/
def blank : Value → Value
  | string _ => string ""
  | v => v

/-- The content of a string. -/
def strings : Value → List String
  | string s => [s]
  | _ => []

end Value

def Operand.blank : Operand → Operand
  | none => none
  | single v => single v.blank
  | range low high => range low.blank high.blank
  | list vs => list (vs.map Value.blank)

/-- The operator looks for its operand inside a text. -/
def Operator.isPattern (op : Operator) : Bool := op ∈ [contains, startsWith, endsWith]

def Comparison.blank (c : Comparison) : Comparison :=
  if c.op.isPattern then c else { c with operand := c.operand.blank }

def FunctionCall.blank (f : FunctionCall) : FunctionCall :=
  { f with
    values := f.values.map Value.blank
    comparison := f.comparison.map fun p => (p.1, p.2.blank) }

def Leaf.blank : Leaf → Leaf
  | comparison c => comparison c.blank
  | call f => call f.blank

/-- The condition without the contents of its strings, those of patterns aside. -/
def Condition.blank : Condition → Condition
  | leaf l => leaf l.blank
  | and a b => and a.blank b.blank
  | or a b => or a.blank b.blank
  | not c => not c.blank
  | group c => group c.blank

def Comparison.strings (c : Comparison) : List String :=
  (c.test?.elim [] Test.literals).flatMap Value.strings

def FunctionCall.strings (f : FunctionCall) : List String :=
  if f.function.isAggregation then f.comparison.elim [] (·.2.strings)
  else f.values.flatMap Value.strings

/-- The contents of the strings of a leaf; one that cannot be written has none. -/
def Leaf.strings (m : Mapping) (l : Leaf) : List String :=
  if (l.plan m false).predicate = .never then []
  else match l with
    | comparison c => c.strings
    | call f => f.strings

/-- The contents of the strings that the predicate of a condition writes, in order. -/
def Condition.strings (m : Mapping) (c : Condition) : List String :=
  c.leaves.flatMap (Leaf.strings m)

/-! ## Values -/

section Values

variable (m : Mapping) {v v' : Value}

theorem literal_alike (h : v.blank = v'.blank) :
    (m.literal v).Alike (m.literal v') v.strings v'.strings := by
  by_cases hs : ∃ s, v = .string s
  · obtain ⟨s, rfl⟩ := hs
    cases v' with
    | string s' => exact .quoted s s'
    | _ => cases h
  · have hv : v.blank = v := by
      cases v with
      | string s => exact absurd ⟨s, rfl⟩ hs
      | _ => rfl
    cases v' with
    | string s' => rw [hv] at h; exact absurd ⟨_, h⟩ hs
    | _ => rw [hv] at h; subst h; exact .same _

theorem literals_alike {vs vs' : List Value} (h : vs.map Value.blank = vs'.map Value.blank) :
    Term.AllAlike (vs.map m.literal) (vs'.map m.literal) (vs.flatMap Value.strings)
      (vs'.flatMap Value.strings) := by
  induction vs generalizing vs' with
  | nil =>
    rw [List.map_nil, eq_comm, List.map_eq_nil_iff] at h
    subst h; exact .nil
  | cons v vs ih =>
    cases vs' with
    | nil => cases h
    | cons v' vs' =>
      obtain ⟨hv, hvs⟩ := List.cons.inj h
      exact .cons (literal_alike m hv) (ih hvs)

end Values

/-! ## Comparisons -/

/-- The test without the contents of the strings that it writes as literals. -/
def Test.blank : Test → Test
  | between low high => between low.blank high.blank
  | oneOf vs => oneOf (vs.map Value.blank)
  | relation r v => relation r v.blank
  | t => t

def Test.strings (t : Test) : List String := t.literals.flatMap Value.strings

theorem test_alike (m : Mapping) {test test' : Test} (h : test.blank = test'.blank) (t : Term)
    (nullOnly negated : Bool) :
    (test.predicate m t nullOnly negated).Alike (test'.predicate m t nullOnly negated)
      test.strings test'.strings := by
  cases test with
  | empty => cases test' <;> cases h; exact .same _
  | filled => cases test' <;> cases h; exact .same _
  | like => cases test' <;> cases h; exact .same _
  | between low high =>
    cases test' with
    | between low' high' =>
      obtain ⟨hl, hh⟩ := Test.between.inj h
      have := Predicate.Alike.between t (literal_alike m hl) (literal_alike m hh)
      simp only [Test.strings, Test.literals, List.flatMap_cons, List.flatMap_nil, List.append_nil]
      exact this
    | _ => cases h
  | oneOf vs =>
    cases test' with
    | oneOf vs' =>
      have hvs := literals_alike m (Test.oneOf.inj h)
      cases negated
      · exact .isIn t hvs
      · exact .isNotIn t hvs
    | _ => cases h
  | relation r v =>
    cases test' with
    | relation r' v' =>
      obtain ⟨rfl, hv⟩ := Test.relation.inj h
      have := Predicate.Alike.compare t r (literal_alike m hv)
      simp only [Test.strings, Test.literals, List.flatMap_cons, List.flatMap_nil, List.append_nil]
      exact this
    | _ => cases h

theorem test_ne_never (m : Mapping) (test : Test) (t : Term) (nullOnly : Bool) :
    test.predicate m t nullOnly false ≠ .never := by
  cases test with
  | empty | filled => cases nullOnly <;> exact nofun
  | _ => exact nofun

namespace Comparison

theorem test?_blank (c : Comparison) : c.blank.test? = c.test?.map Test.blank := by
  obtain ⟨field, op, operand, position⟩ := c
  cases op <;> cases operand <;> rfl

variable {c c' : Comparison}

theorem blank_inj (h : c.blank = c'.blank) :
    c.field = c'.field ∧ c.op = c'.op ∧
      (c.test? = none ∧ c'.test? = none ∨
        ∃ test test', c.test? = some test ∧ c'.test? = some test' ∧ test.blank = test'.blank) := by
  have hfield (c : Comparison) : c.blank.field = c.field ∧ c.blank.op = c.op := by
    rw [blank]; split <;> exact ⟨rfl, rfl⟩
  refine ⟨?_, ?_, ?_⟩
  · rw [← (hfield c).1, h, (hfield c').1]
  · rw [← (hfield c).2, h, (hfield c').2]
  · have ht := congrArg test? h
    rw [test?_blank, test?_blank] at ht
    cases hc : c.test? with
    | none =>
      rw [hc, Option.map_none, eq_comm, Option.map_eq_none_iff] at ht
      exact .inl ⟨rfl, ht⟩
    | some test =>
      rw [hc, Option.map_some, eq_comm, Option.map_eq_some_iff] at ht
      obtain ⟨test', htest, hb⟩ := ht
      exact .inr ⟨test, test', rfl, htest, hb.symm⟩

variable (m : Mapping)

theorem planOn_alike (h : c.blank = c'.blank) (t : Term) (nullOnly negated : Bool) :
    (c.planOn m t nullOnly negated).predicate.Alike (c'.planOn m t nullOnly negated).predicate
      c.strings c'.strings := by
  obtain ⟨-, -, ⟨hn, hn'⟩ | ⟨test, test', ht, ht', hb⟩⟩ := blank_inj h
  · simp only [planOn, strings, hn, hn']; exact .same _
  · simp only [planOn, strings, ht, ht']
    exact test_alike m hb t nullOnly negated

theorem planOnGrid_alike (h : c.blank = c'.blank) (table column : String)
    (nullOnly negated : Bool) :
    (c.planOnGrid m table column nullOnly negated).predicate.Alike
      (c'.planOnGrid m table column nullOnly negated).predicate c.strings c'.strings :=
  (Predicate.Alike.rowExistsWhere _ (planOn_alike m h _ nullOnly false)).negatedIf negated

variable {m}

/-- The bounds of a range, the items of a list and the value that a relation compares with are
written as literals. -/
theorem strings_eq (c : Comparison) :
    c.strings = match c.op, c.operand with
      | .between, .range low high => low.strings ++ high.strings
      | .isIn, .list vs => vs.flatMap Value.strings
      | op, .single v => if op.relation?.isSome then v.strings else []
      | _, _ => [] := by
  obtain ⟨field, op, operand, position⟩ := c
  cases op <;> cases operand <;>
    simp [strings, test?, Operator.test?, Operator.relation?, Test.literals]

theorem planOn_never {t : Term} {nullOnly : Bool}
    (h : (c.planOn m t nullOnly false).predicate = .never) : c.strings = [] := by
  rw [planOn] at h
  split at h
  · exact absurd h (test_ne_never m _ t nullOnly)
  · rename_i hn; rw [strings, hn]; rfl

theorem strings_of_grid {table : String} {d : FieldDefinition}
    (h : m.resolve? c.field = some (.grid table d)) : Leaf.strings m (.comparison c) = [] := by
  rw [Leaf.strings, if_pos]
  change (c.planRest m false).predicate = _
  simp only [planRest, h]; rfl

theorem strings_of_not_grid (h : ∀ table d, m.resolve? c.field ≠ some (.grid table d)) :
    Leaf.strings m (.comparison c) = c.strings := by
  rw [Leaf.strings]
  split
  · rename_i hn
    change (c.planRest m false).predicate = _ at hn
    rw [planRest] at hn
    split at hn
    · exact (planOn_never hn).symm
    · cases hn
    · rename_i hr; exact absurd hr (h _ _)
    · dsimp only at hn
      split at hn
      · cases hn
      · exact (planOn_never hn).symm
  · rfl

variable (m)

theorem plan_alike (h : c.blank = c'.blank) (negated : Bool) :
    (c.plan m negated).predicate.Alike (c'.plan m negated).predicate
      (Leaf.strings m (.comparison c)) (Leaf.strings m (.comparison c')) := by
  have hfield := (blank_inj h).1
  have hchild : c.unknownChild? m = c'.unknownChild? m := by
    rw [unknownChild?, unknownChild?, hfield]
  change (c.planRest m negated).predicate.Alike (c'.planRest m negated).predicate _ _
  by_cases hg : ∃ table d, m.resolve? c.field = some (.grid table d)
  · obtain ⟨table, d, hr⟩ := hg
    have hr' := hr
    rw [hfield] at hr'
    rw [strings_of_grid hr, strings_of_grid hr']
    simp only [planRest, hr, hr']
    exact .same _
  · have hno : ∀ table d, m.resolve? c.field ≠ some (.grid table d) :=
      fun table d hr => hg ⟨table, d, hr⟩
    rw [strings_of_not_grid hno, strings_of_not_grid (by rw [← hfield]; exact hno)]
    simp only [planRest, ← hfield, ← hchild]
    split
    · exact planOn_alike m h _ _ _
    · exact planOnGrid_alike m h _ _ _ _
    · rename_i hr; exact absurd hr (hno _ _)
    · split
      · exact planOnGrid_alike m h _ _ _ _
      · exact planOn_alike m h _ _ _

end Comparison

/-! ## Calls -/

namespace FunctionCall

variable {f f' : FunctionCall}

theorem blank_inj (h : f.blank = f'.blank) :
    f.function = f'.function ∧ f.target = f'.target ∧
      f.values.map Value.blank = f'.values.map Value.blank ∧
      f.comparison.map (fun p => (p.1, p.2.blank)) =
        f'.comparison.map fun p => (p.1, p.2.blank) := by
  have hf := congrArg (fun g : FunctionCall => g.function) h
  have ht := congrArg (fun g : FunctionCall => g.target) h
  have hv := congrArg (fun g : FunctionCall => g.values) h
  have hc := congrArg (fun g : FunctionCall => g.comparison) h
  exact ⟨hf, ht, hv, hc⟩

theorem target?_alike (m : Mapping) (h : f.blank = f'.blank) : f.target? m = f'.target? m := by
  rw [target?, target?, (blank_inj h).2.1]

/-! ### Calls that are computed -/

/-- The target of a call has what the function is computed on, and an aggregation is compared as
numbers are. -/
def Computed (m : Mapping) (f : FunctionCall) : Prop :=
  ∃ t, f.target? m = some t ∧
    if f.function.isAggregation then
      (aggregate? f.function t.column).isSome ∧
        ∀ op ∈ f.comparison.map (·.1), op.relation?.isSome
    else f.values = [] ∨ t.column.isSome

section Computed

variable {m : Mapping} {t : CallTarget}

theorem predicate_planAggregate_ne_never : (f.planAggregate m t).predicate ≠ .never ↔
    (aggregate? f.function t.column).isSome ∧
      ∀ op ∈ f.comparison.map (·.1), op.relation?.isSome := by
  unfold planAggregate
  cases aggregate? f.function t.column with
  | none => simp
  | some a =>
    cases f.comparison with
    | none =>
      refine iff_of_true ?_ ⟨rfl, nofun⟩
      dsimp only
      split <;> exact nofun
    | some compared =>
      obtain ⟨op, v⟩ := compared
      cases hop : op.relation? <;> simp [hop]

theorem predicate_planCheck_ne_never :
    (f.planCheck m t).predicate ≠ .never ↔ f.values = [] ∨ t.column.isSome := by
  have hsome (b : Bool) {p : Predicate} (hp : p ≠ .never) : Predicate.negatedIf b p ≠ .never := by
    cases b
    · exact hp
    · exact nofun
  unfold planCheck
  cases f.values with
  | nil =>
    refine iff_of_true ?_ (.inl rfl)
    dsimp only
    split
    · exact nofun
    · split
      · exact hsome _ nofun
      · exact hsome _ nofun
  | cons v vs =>
    cases t.column with
    | none => simp
    | some c =>
      refine iff_of_true ?_ (.inr rfl)
      dsimp only
      split
      · split <;> exact nofun
      · exact hsome _ nofun

theorem predicate_plan_ne_never : (f.plan m).predicate ≠ .never ↔ f.Computed m := by
  unfold plan Computed
  cases f.target? m with
  | none => simp
  | some t =>
    cases ha : f.function.isAggregation with
    | true => simp [predicate_planAggregate_ne_never]
    | false => simp [predicate_planCheck_ne_never]

theorem strings_of_computed (h : f.Computed m) : Leaf.strings m (.call f) = f.strings :=
  if_neg (predicate_plan_ne_never.2 h)

theorem strings_of_not_computed (h : ¬ f.Computed m) : Leaf.strings m (.call f) = [] :=
  if_pos (not_not.1 (mt predicate_plan_ne_never.1 h))

theorem computed_alike (h : f.blank = f'.blank) : f.Computed m ↔ f'.Computed m := by
  obtain ⟨hf, -, hvs, hc⟩ := blank_inj h
  have hnil : f.values = [] ↔ f'.values = [] := by
    rw [← List.map_eq_nil_iff (f := Value.blank), hvs, List.map_eq_nil_iff]
  have hop : f.comparison.map (·.1) = f'.comparison.map (·.1) := by
    simpa [Function.comp_def] using congrArg (Option.map Prod.fst) hc
  simp only [Computed, target?_alike m h, hf, hnil, hop]

end Computed

/-! ### Alike calls -/

theorem planAggregate_alike (m : Mapping) (h : f.blank = f'.blank) {t : CallTarget}
    (ha : (aggregate? f.function t.column).isSome)
    (hop : ∀ op ∈ f.comparison.map (·.1), op.relation?.isSome) :
    (f.planAggregate m t).predicate.Alike (f'.planAggregate m t).predicate
      (f.comparison.elim [] (·.2.strings)) (f'.comparison.elim [] (·.2.strings)) := by
  obtain ⟨hf, -, -, hc⟩ := blank_inj h
  obtain ⟨a, ha⟩ := Option.isSome_iff_exists.1 ha
  simp only [planAggregate, ← hf, ha]
  cases hf : f.comparison with
  | none =>
    rw [hf, Option.map_none, eq_comm, Option.map_eq_none_iff] at hc
    rw [hc]
    dsimp only
    split <;> exact .same _
  | some p =>
    obtain ⟨op, v⟩ := p
    rw [hf] at hop
    obtain ⟨r, hr⟩ := Option.isSome_iff_exists.1 (hop op rfl)
    rw [hf, Option.map_some, eq_comm, Option.map_eq_some_iff] at hc
    obtain ⟨⟨op', v'⟩, hc', hp⟩ := hc
    obtain ⟨rfl, hv⟩ := Prod.mk.inj hp
    rw [hc']
    simp only [hr]
    exact .compare _ _ (literal_alike m hv.symm)

theorem rowHas_alike (m : Mapping) (table : String) (c : Column) {v v' : Value}
    (h : v.blank = v'.blank) :
    (rowHas m table c v).Alike (rowHas m table c v') v.strings v'.strings :=
  .rowExistsWhere _ (.compare _ _ (literal_alike m h))

theorem foldl_rowHas_alike (m : Mapping) (table : String) (c : Column) {vs vs' : List Value}
    (h : vs.map Value.blank = vs'.map Value.blank) {p p' : Predicate} {ss us : List String}
    (hp : p.Alike p' ss us) :
    ((vs.map (rowHas m table c)).foldl .and p).Alike ((vs'.map (rowHas m table c)).foldl .and p')
      (ss ++ vs.flatMap Value.strings) (us ++ vs'.flatMap Value.strings) := by
  induction vs generalizing vs' p p' ss us with
  | nil =>
    rw [List.map_nil, eq_comm, List.map_eq_nil_iff] at h
    subst h
    simpa using hp
  | cons v vs ih =>
    cases vs' with
    | nil => cases h
    | cons v' vs' =>
      obtain ⟨hv, hvs⟩ := List.cons.inj h
      have := ih hvs (Predicate.Alike.and hp (rowHas_alike m table c hv))
      simpa [List.append_assoc] using this

theorem rowsHave_alike (m : Mapping) (table : String) (c : Column) {v v' : Value}
    {vs vs' : List Value} (hv : v.blank = v'.blank)
    (hvs : vs.map Value.blank = vs'.map Value.blank) :
    (if vs = [] then rowHas m table c v
      else Predicate.paren (.all (rowHas m table c v :: vs.map (rowHas m table c)))).Alike
    (if vs' = [] then rowHas m table c v'
      else Predicate.paren (.all (rowHas m table c v' :: vs'.map (rowHas m table c))))
    ((v :: vs).flatMap Value.strings) ((v' :: vs').flatMap Value.strings) := by
  have hrow := rowHas_alike m table c hv
  have hnil : vs = [] ↔ vs' = [] := by
    rw [← List.map_eq_nil_iff (f := Value.blank), hvs, List.map_eq_nil_iff]
  by_cases hn : vs = []
  · obtain rfl := hn
    obtain rfl := hnil.1 rfl
    simpa using hrow
  · rw [if_neg hn, if_neg (mt hnil.2 hn)]
    exact .paren (foldl_rowHas_alike m table c hvs hrow)

theorem planCheck_alike (m : Mapping) (h : f.blank = f'.blank) {t : CallTarget}
    (ht : f.values = [] ∨ t.column.isSome) :
    (f.planCheck m t).predicate.Alike (f'.planCheck m t).predicate
      (f.values.flatMap Value.strings) (f'.values.flatMap Value.strings) := by
  obtain ⟨hf, -, hvs, -⟩ := blank_inj h
  simp only [planCheck, ← hf]
  cases hv : f.values with
  | nil =>
    rw [hv, List.map_nil, eq_comm, List.map_eq_nil_iff] at hvs
    rw [hvs]
    dsimp only
    split
    · exact .same _
    · split <;> exact .same _
  | cons v vs =>
    rw [hv] at hvs ht
    obtain ⟨c, hcolumn⟩ := Option.isSome_iff_exists.1 (ht.resolve_left (List.cons_ne_nil v vs))
    cases hv' : f'.values with
    | nil => rw [hv'] at hvs; cases hvs
    | cons v' vs' =>
      rw [hv'] at hvs
      obtain ⟨hv, htail⟩ := List.cons.inj hvs
      simp only [hcolumn]
      split
      · exact rowsHave_alike m t.table c hv htail
      · exact (Predicate.Alike.rowExistsWhere (m.rows t.table)
          (.isIn (.column c) (literals_alike m hvs))).negatedIf _

theorem plan_alike (m : Mapping) (h : f.blank = f'.blank) :
    (f.plan m).predicate.Alike (f'.plan m).predicate (Leaf.strings m (.call f))
      (Leaf.strings m (.call f')) := by
  by_cases hc : f.Computed m
  · rw [strings_of_computed hc, strings_of_computed ((computed_alike h).1 hc)]
    obtain ⟨t, ht, hgiven⟩ := hc
    have hf := (blank_inj h).1
    have ht' := (target?_alike m h).symm.trans ht
    simp only [plan, ht, ht', strings, ← hf]
    split at hgiven
    · rename_i ha
      simp only [ha, if_true]
      exact planAggregate_alike m h hgiven.1 hgiven.2
    · rename_i ha
      simp only [ha, Bool.false_eq_true, if_false]
      exact planCheck_alike m h hgiven
  · have hc' := mt (computed_alike h).2 hc
    rw [strings_of_not_computed hc, strings_of_not_computed hc',
      not_not.1 (mt predicate_plan_ne_never.1 hc), not_not.1 (mt predicate_plan_ne_never.1 hc')]
    exact .same _

end FunctionCall

/-! ## Leaves -/

namespace Leaf

/-- A leaf that is written with its operands: a comparison with something else than a whole grid,
or a call that is computed. -/
def Written (m : Mapping) : Leaf → Prop
  | comparison c => ∀ table d, m.resolve? c.field ≠ some (.grid table d)
  | call f => f.Computed m

/-- The contents of the strings in the operands, those of patterns aside. -/
def operandStrings : Leaf → List String
  | comparison c => c.strings
  | call f => f.strings

variable {m : Mapping} {l : Leaf}

theorem strings_of_written (h : l.Written m) : l.strings m = l.operandStrings := by
  cases l with
  | comparison c => exact Comparison.strings_of_not_grid h
  | call f => exact FunctionCall.strings_of_computed h

theorem strings_of_not_written (h : ¬ l.Written m) : l.strings m = [] := by
  cases l with
  | comparison c =>
    simp only [Written, not_forall, not_not] at h
    obtain ⟨table, d, hr⟩ := h
    exact Comparison.strings_of_grid hr
  | call f => exact FunctionCall.strings_of_not_computed h

end Leaf

theorem Leaf.plan_alike (m : Mapping) {l l' : Leaf} (h : l.blank = l'.blank) (negated : Bool) :
    (l.plan m negated).predicate.Alike (l'.plan m negated).predicate (l.strings m)
      (l'.strings m) := by
  cases l with
  | comparison c =>
    cases l' with
    | comparison c' => exact Comparison.plan_alike m (Leaf.comparison.inj h) negated
    | call f' => cases h
  | call f =>
    cases l' with
    | comparison c' => cases h
    | call f' => exact FunctionCall.plan_alike m (Leaf.call.inj h)

/-! ## Conditions -/

namespace Condition

theorem isOr_blank (c : Condition) : c.blank.isOr = c.isOr := by cases c <;> rfl

theorem isGroup_blank (c : Condition) : c.blank.isGroup = c.isGroup := by cases c <;> rfl

/-- The contents of lists are no part of the list comparison that a condition is. -/
theorem list?_blank (c : Condition) : c.blank.list? = c.list?.map Comparison.blank := by
  induction c with
  | leaf l =>
    cases l with
    | comparison c =>
      have hop : c.blank.op = c.op := by rw [Comparison.blank]; split <;> rfl
      change (if c.blank.op = .isIn then some c.blank else none) =
        (if c.op = .isIn then some c else none).map Comparison.blank
      rw [hop]
      split <;> rfl
    | call f => rfl
  | group c ih => exact ih
  | _ => rfl

theorem parenIf_alike {p p' : Predicate} {ss us : List String} (h : p.Alike p' ss us) (b : Bool) :
    (parenIf b p).Alike (parenIf b p') ss us := by
  cases b
  · exact h
  · exact .paren h

/-- The predicates of conditions that differ in strings are alike. -/
theorem alike (m : Mapping) {c c' : Condition} (h : c.blank = c'.blank) :
    (c.predicate m).Alike (c'.predicate m) (c.strings m) (c'.strings m) := by
  have hor {c c' : Condition} (h : c.blank = c'.blank) : c.isOr = c'.isOr := by
    rw [← isOr_blank, h, isOr_blank]
  induction c generalizing c' with
  | leaf l =>
    cases c' with
    | leaf l' =>
      have := Leaf.plan_alike m (Condition.leaf.inj h) false
      simp only [strings, leaves, List.flatMap_cons, List.flatMap_nil, List.append_nil]
      exact this
    | _ => cases h
  | and a b iha ihb =>
    cases c' with
    | and a' b' =>
      obtain ⟨ha, hb⟩ := Condition.and.inj h
      have := Predicate.Alike.and (parenIf_alike (iha ha) a.isOr) (parenIf_alike (ihb hb) b.isOr)
      simp only [predicate, ← hor ha, ← hor hb, strings, leaves, List.flatMap_append]
      exact this
    | _ => cases h
  | or a b iha ihb =>
    cases c' with
    | or a' b' =>
      obtain ⟨ha, hb⟩ := Condition.or.inj h
      have := Predicate.Alike.or (iha ha) (ihb hb)
      simp only [strings, leaves, List.flatMap_append]
      exact this
    | _ => cases h
  | not c ih =>
    cases c' with
    | not c' =>
      have h := Condition.not.inj h
      have hl := list?_blank c
      rw [h, list?_blank c'] at hl
      cases hc : c.list? with
      | none =>
        rw [hc, Option.map_none, Option.map_eq_none_iff] at hl
        have hg : c.isGroup = c'.isGroup := by rw [← isGroup_blank, h, isGroup_blank]
        simp only [predicate, hc, hl, ← hg]
        exact .not (parenIf_alike (ih h) _)
      | some l =>
        rw [hc, Option.map_some, Option.map_eq_some_iff] at hl
        obtain ⟨l', hc', hb⟩ := hl
        have := Comparison.plan_alike m hb.symm true
        simp only [predicate, hc, hc', strings, leaves, (list?_eq_some hc).2.1,
          (list?_eq_some hc').2.1, List.flatMap_cons, List.flatMap_nil, List.append_nil]
        exact this
    | _ => cases h
  | group c ih =>
    cases c' with
    | group c' => exact .paren (ih (Condition.group.inj h))
    | _ => cases h

/-- A condition of leaves that are written writes all of their strings. -/
theorem strings_of_written {m : Mapping} {c : Condition} (h : ∀ l ∈ c.leaves, l.Written m) :
    c.strings m = c.leaves.flatMap Leaf.operandStrings := by
  have hmap : c.leaves.map (Leaf.strings m) = c.leaves.map Leaf.operandStrings :=
    List.map_congr_left fun l hl => Leaf.strings_of_written (h l hl)
  rw [strings, List.flatMap_def, List.flatMap_def, hmap]

/-- Conditions that differ in the contents of strings compile to the same tokens, save for one
string literal for each of those strings. -/
theorem tokens_aligned {m : Mapping} (hm : m.Usable IsComplete) {c c' : Condition}
    (hi : c.Identified) (hi' : c'.Identified) (h : c.blank = c'.blank) :
    ∃ ts ts', tokens (c.predicate m).text.toList = some ts ∧
      tokens (c'.predicate m).text.toList = some ts' ∧
      Aligned ts ts' (c.strings m) (c'.strings m) ∧
      (nest? ts).isSome = true ∧ (nest? ts').isSome = true := by
  have hs := Predicate.shows (predicate_clean hm hi)
  have hs' := Predicate.shows (predicate_clean hm hi')
  refine ⟨_, _, hs.1.tokens, hs'.1.tokens, (alike m h).aligned, ?_, ?_⟩
  · rw [nest?_itemTokens hs.2]; rfl
  · rw [nest?_itemTokens hs'.2]; rfl

/-- The condition on herders with strings that are written to break out of their literals. -/
def herdInjection : Condition :=
  and (or (leaf (.comparison ⟨"age", .between, .range (.int 16) (.int 30), {}⟩))
      (leaf (.comparison ⟨"fullName", .eq, .single (.string "' OR '1' = '1"), {}⟩)))
    (not (group (leaf (.comparison
      ⟨"herd.kind", .isIn, .list [.string "cow')) -- ", .string "/* goat"], {}⟩))))

theorem herdInjection_aligned :
    herdInjection.strings herdMapping = ["' OR '1' = '1", "cow')) -- ", "/* goat"] ∧
    ∃ ts ts', tokens (herdCondition.predicate herdMapping).text.toList = some ts ∧
      tokens (herdInjection.predicate herdMapping).text.toList = some ts' ∧
      Aligned ts ts' (herdCondition.strings herdMapping) (herdInjection.strings herdMapping) ∧
      (nest? ts).isSome = true ∧ (nest? ts').isSome = true :=
  ⟨by decide +kernel, tokens_aligned (herdMapping_usable.mono fun _ => IsLiteral.isComplete)
    (by decide +kernel) (by decide +kernel) rfl⟩

end Condition

end Eligibility
