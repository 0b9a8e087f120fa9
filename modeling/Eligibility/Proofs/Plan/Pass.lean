import Eligibility.Proofs.Plan.Uses

/-!
# Compiling in one pass

A pass goes through a condition once, from left to right. It notes an id when it is first used and a
warning when it arises.

* `Findings`, `Pass`: what a pass has come across, and computations that add to it;
* `Pass.comparison`, `Pass.call`, **`Pass.condition`**: the pass;
* `Pass.Adds`: what a computation gives and adds, whatever it starts from;
* **`Pass.condition_adds`**: the pass gives the predicate of the condition, and adds what the leaves
  use and are warned of;
* **`Condition.findings_of_leaves`**: what is found depends on the leaves alone.
-/

namespace Eligibility

open Sql (Term Predicate)

/-! ## Findings -/

/-- The ids with another one, which is dropped if it is there already. -/
def noted (ids : List String) (id : String) : List String := if id ∈ ids then ids else ids ++ [id]

/-- What a pass has come across. -/
structure Findings where
  used : List String := []
  warnings : List (Position × PlanWarning) := []

namespace Findings

def add (s : Findings) (ids : List String) (ws : List (Position × PlanWarning)) : Findings :=
  ⟨ids.foldl noted s.used, s.warnings ++ ws⟩

theorem add_nil (s : Findings) : s.add [] [] = s := by
  rw [add, List.append_nil]
  rfl

theorem add_add (s : Findings) (ids ids' : List String) (ws ws' : List (Position × PlanWarning)) :
    (s.add ids ws).add ids' ws' = s.add (ids ++ ids') (ws ++ ws') := by
  rw [add, add, add, List.foldl_append, List.append_assoc]

end Findings

/-- Noting ids one after the other adds the first occurrences of those that are new. -/
theorem foldl_noted (seen ids : List String) :
    ids.foldl noted seen = seen ++ (distinct ids).filter (· ∉ seen) := by
  induction ids generalizing seen with
  | nil => exact (List.append_nil seen).symm
  | cons id ids ih =>
    rw [List.foldl_cons, ih, distinct, noted]
    split
    · rename_i hid
      have hdrop : (distinct ids).filter (· ∉ seen) =
          ((distinct ids).filter (· ≠ id)).filter (· ∉ seen) := by
        rw [List.filter_filter]
        refine List.filter_congr fun x _ => ?_
        by_cases hx : x = id <;> simp [hx, hid]
      rw [List.filter_cons_of_neg (by simpa using hid), hdrop]
    · rename_i hid
      have hkeep : (distinct ids).filter (· ∉ seen ++ [id]) =
          ((distinct ids).filter (· ≠ id)).filter (· ∉ seen) := by
        rw [List.filter_filter]
        refine List.filter_congr fun x _ => ?_
        simp
      rw [List.filter_cons_of_pos (by simpa using hid), hkeep, List.append_assoc]
      rfl

theorem foldl_noted_nil (ids : List String) : ids.foldl noted [] = distinct ids := by
  rw [foldl_noted, List.nil_append]
  exact List.filter_eq_self.2 fun _ _ => decide_eq_true List.not_mem_nil

/-! ## Negated comparisons -/

namespace Comparison

variable {m : Mapping} (c : Comparison)

theorem ids_plan_negated : (c.plan m true).ids = (c.plan m false).ids := by
  rw [c.ids_plan, c.ids_plan]

theorem warnings_plan_negated : (c.plan m true).warnings = (c.plan m false).warnings := by
  cases hs : c.subject? m with
  | none =>
    obtain ⟨table, d, hgrid⟩ := subject?_eq_none.1 hs
    rw [plan, plan, planRest, planRest, hgrid]
  | some s =>
    rw [plan_of_subject hs, plan_of_subject hs, Subject.filter, Subject.filter, warnings_planOn,
      warnings_planOn]

end Comparison

/-! ## The pass -/

/-- A computation that adds to what has been come across. -/
abbrev Pass := StateM Findings

namespace Pass

def use (id : String) : Pass Unit := modify fun s => { s with used := noted s.used id }

def warn (position : Position) (w : PlanWarning) : Pass Unit :=
  modify fun s => { s with warnings := s.warnings ++ [(position, w)] }

section Leaves

variable (m : Mapping)

/-- A bare word uses the base field that it names. -/
def literal : Value → Pass Term
  | .identifier id =>
    match m.resolve? id with
    | some (.base column _) => do
      use id
      return .column ⟨m.schema.baseAlias, column⟩
    | _ => return .quoted id
  | v => return m.literal v

def literals (vs : List Value) : Pass (List Term) := vs.mapM (literal m)

/-- The values of a test are read from left to right. -/
def test (t : Term) (nullOnly negated : Bool) : Test → Pass Predicate
  | .between low high => do
    let low ← literal m low
    let high ← literal m high
    return .between t low high
  | .oneOf vs => do
    let ts ← literals m vs
    return if negated then .isNotIn t ts else .isIn t ts
  | .relation r v => do
    let v ← literal m v
    return .compare t r v
  | other => return other.predicate m t nullOnly negated

/-- The comparison on a term. -/
def filter (c : Comparison) (t : Term) (nullOnly negated : Bool) : Pass Predicate :=
  match c.test? with
  | some other => test m t nullOnly negated other
  | none => do
    warn c.position (.malformedOperand c.op c.field)
    return .never

/-- The comparison on a column of a grid. -/
def filterGrid (c : Comparison) (table column : String) (nullOnly negated : Bool) :
    Pass Predicate := do
  let p ← filter m c (.column (m.gridColumn column)) nullOnly false
  return .negatedIf negated (.rowExistsWhere (m.rows table) p)

def checkOperator (c : Comparison) (d : FieldDefinition) : Pass Unit :=
  if d.allowsOperator c.op then pure ()
  else warn c.position (.operatorNotApplicable c.op d.id d.fieldType)

def comparison (negated : Bool) (c : Comparison) : Pass Predicate := do
  use c.field
  match m.resolve? c.field with
  | some (.base column d) => do
    checkOperator c d
    filter m c (.column ⟨m.schema.baseAlias, column⟩) d.fieldType.nullMeansEmpty negated
  | some (.gridChild table column d) => do
    checkOperator c d
    filterGrid m c table column d.fieldType.nullMeansEmpty negated
  | some (.grid _ _) => do
    warn c.position (.comparedGrid c.field)
    return if negated then .not (.paren .never) else .never
  | none => do
    warn c.position (.unknownField c.field)
    match c.unknownChild? m with
    | some (table, column) => filterGrid m c table column false negated
    | none => filter m c (.name c.field) false negated

def checkFunction (f : FunctionCall) (d : FieldDefinition) : Pass Unit :=
  if d.allowsFunction f.function then pure ()
  else warn f.position (.functionNotPermitted f.function d.id)

def target (f : FunctionCall) : Pass (Option CallTarget) := do
  match m.resolve? f.target with
  | some (.grid _ d) | some (.gridChild _ _ d) => checkFunction f d
  | some (.base _ _) => warn f.position (.notAGrid f.function f.target)
  | none => warn f.position (.unknownField f.target)
  return f.target? m

def aggregation (f : FunctionCall) (t : CallTarget) : Pass Predicate :=
  match FunctionCall.aggregate? f.function t.column with
  | none => do
    warn f.position (.aggregatedGrid f.function f.target)
    return .never
  | some a =>
    let result : Term := .aggregate a (m.rows t.table)
    match f.comparison with
    | some (op, v) =>
      match op.relation? with
      | some r => do
        let v ← literal m v
        return .compare result r v
      | none => do
        warn f.position (.resultNotComparable op f.function)
        return .never
    | none =>
      match f.function with
      | .count | .sum => return .compare result .gt (.int 0)
      | _ => return .isNotNull result

/-- A row whose column is a value. -/
def rowHas (table : String) (c : Sql.Column) (v : Value) : Pass Predicate := do
  let v ← literal m v
  return .rowExistsWhere (m.rows table) (.compare (.column c) .eq v)

def check (f : FunctionCall) (t : CallTarget) : Pass Predicate :=
  let rows := m.rows t.table
  let negated := f.function = .hasNone
  match f.values, t.column with
  | [], column =>
    if f.function = .hasAll then do
      warn f.position (.nothingToHave f.target)
      return .always
    else match column with
      | none => return .negatedIf negated (.rowExists rows)
      | some c => return .negatedIf negated (.rowExistsWhere rows (.isNotNull (.column c)))
  | _ :: _, none => do
    warn f.position (.valuesOfGrid f.function f.target)
    return .never
  | v :: vs, some c =>
    if f.function = .hasAll then do
      let ps ← (v :: vs).mapM (rowHas m t.table c)
      return if vs = [] then .all ps else .paren (.all ps)
    else do
      let ts ← literals m (v :: vs)
      return .negatedIf negated (.rowExistsWhere rows (.isIn (.column c) ts))

def onTarget (f : FunctionCall) : Option CallTarget → Pass Predicate
  | none => return .never
  | some t => if f.function.isAggregation then aggregation m f t else check m f t

def call (f : FunctionCall) : Pass Predicate := do
  use f.target
  let t ← target m f
  onTarget m f t

def leaf (negated : Bool) : Leaf → Pass Predicate
  | .comparison c => comparison m negated c
  | .call f => call m f

/-- The pass over a condition. -/
def condition : Condition → Pass Predicate
  | .leaf l => leaf m false l
  | .and a b => do
    let p ← condition a
    let q ← condition b
    return .and (Condition.parenIf a.isOr p) (Condition.parenIf b.isOr q)
  | .or a b => do
    let p ← condition a
    let q ← condition b
    return .or p q
  | .not c =>
    match c.list? with
    | some l => comparison m true l
    | none => do
      let p ← condition c
      return .not (Condition.parenIf (!c.isGroup) p)
  | .group c => do
    let p ← condition c
    return .paren p

end Leaves

/-! ## What a pass adds -/

/-- The computation gives `a` and adds the ids and the warnings, whatever it starts from. -/
def Adds {α : Type} (x : Pass α) (a : α) (ids : List String) (ws : List (Position × PlanWarning)) :
    Prop :=
  ∀ s, x.run s = (a, s.add ids ws)

namespace Adds

variable {α β : Type} {x : Pass α} {a : α} {ids ids' : List String}
  {ws ws' : List (Position × PlanWarning)}

protected theorem pure (a : α) : Adds (pure a) a [] [] := fun s => by
  rw [s.add_nil]
  rfl

theorem bind {f : α → Pass β} {b : β} (hx : Adds x a ids ws) (hf : Adds (f a) b ids' ws') :
    Adds (x >>= f) b (ids ++ ids') (ws ++ ws') := fun s => by
  rw [← s.add_add, ← hf, StateT.run_bind, hx]
  rfl

theorem map {f : α → β} (hx : Adds x a ids ws) :
    Adds (do let a ← x; return f a) (f a) ids ws := by
  have := hx.bind (f := fun a => Pure.pure (f a)) (.pure (f a))
  rwa [List.append_nil, List.append_nil] at this

protected theorem use (id : String) : Adds (use id) () [id] [] := fun s => by
  rw [Findings.add, List.append_nil]
  rfl

protected theorem warn (position : Position) (w : PlanWarning) :
    Adds (warn position w) () [] [(position, w)] := fun _ => rfl

theorem mapM {ι : Type} {f : ι → Pass α} {g : ι → α} {used : ι → List String}
    (h : ∀ i, Adds (f i) (g i) (used i) []) (is : List ι) :
    Adds (is.mapM f) (is.map g) (is.flatMap used) [] := by
  induction is with
  | nil =>
    rw [List.mapM_nil]
    exact .pure []
  | cons i is ih =>
    rw [List.mapM_cons]
    exact (h i).bind ih.map

end Adds

/-- The computation gives and adds what the plan says, with the warnings at the position. -/
def Follows (x : Pass Predicate) (position : Position) (p : LeafPlan) : Prop :=
  Adds x p.predicate p.ids (p.warnings.map (position, ·))

section Leaves

variable (m : Mapping)

theorem literal_adds (v : Value) :
    Adds (literal m v) (m.literal v) (m.literalId? v).toList [] := by
  cases v with
  | identifier id =>
    unfold literal Mapping.literal Mapping.literalId? Mapping.wordColumn?
    dsimp only
    rcases m.resolve? id with _ | (_ | _ | _)
    · exact .pure _
    · exact (Adds.use id).map
    · exact .pure _
    · exact .pure _
  | _ => exact .pure _

theorem literals_adds (vs : List Value) :
    Adds (literals m vs) (vs.map m.literal) (m.literalIds vs) [] := by
  rw [Mapping.literalIds, List.filterMap_eq_flatMap_toList]
  exact .mapM (literal_adds m) vs

theorem test_adds (t : Term) (nullOnly negated : Bool) (test : Test) :
    Adds (Pass.test m t nullOnly negated test) (test.predicate m t nullOnly negated)
      (m.literalIds test.literals) [] := by
  have hone (v : Value) : m.literalIds [v] = (m.literalId? v).toList := by
    rw [Mapping.literalIds, List.filterMap_eq_flatMap_toList, List.flatMap_singleton]
  cases test with
  | between low high =>
    have hboth : m.literalIds [low, high] =
        (m.literalId? low).toList ++ (m.literalId? high).toList := by
      rw [← hone, ← hone]
      exact List.filterMap_append (l := [low])
    rw [Test.literals, hboth]
    exact (literal_adds m low).bind (literal_adds m high).map
  | oneOf vs => exact (literals_adds m vs).map
  | relation r v =>
    rw [Test.literals, hone]
    exact (literal_adds m v).map
  | _ => exact .pure _

theorem filter_follows (c : Comparison) (t : Term) (nullOnly negated : Bool) :
    Follows (filter m c t nullOnly negated) c.position (c.planOn m t nullOnly negated) := by
  unfold filter Comparison.planOn
  cases c.test? with
  | some test => exact test_adds m t nullOnly negated test
  | none => exact (Adds.warn c.position _).map

theorem filterGrid_follows (c : Comparison) (table column : String) (nullOnly negated : Bool) :
    Follows (filterGrid m c table column nullOnly negated) c.position
      (c.planOnGrid m table column nullOnly negated) :=
  (filter_follows m c _ nullOnly false).map

theorem checkOperator_adds (c : Comparison) (d : FieldDefinition) :
    Adds (checkOperator c d) () [] ((c.operatorWarnings d).map (c.position, ·)) := by
  unfold checkOperator Comparison.operatorWarnings
  split
  · exact .pure ()
  · exact .warn _ _

theorem Adds.warned {x : Pass Unit} {y : Pass Predicate} {position : Position} {p : LeafPlan}
    {ws : List PlanWarning} (hx : Adds x () [] (ws.map (position, ·)))
    (hy : Follows y position p) :
    Follows (do x; y) position { p with warnings := ws ++ p.warnings } := by
  unfold Follows
  rw [List.map_append]
  exact hx.bind hy

theorem Follows.using {y : Pass Predicate} {position : Position} {p : LeafPlan} (id : String)
    (hy : Follows y position p) :
    Follows (do use id; y) position { p with ids := id :: p.ids } :=
  (Adds.use id).bind hy

theorem comparison_follows (negated : Bool) (c : Comparison) :
    Follows (comparison m negated c) c.position (c.plan m negated) := by
  refine Follows.using c.field ?_
  unfold Comparison.planRest
  cases m.resolve? c.field with
  | some r =>
    cases r with
    | base column d => exact (checkOperator_adds c d).warned (filter_follows m c _ _ negated)
    | grid table d => exact (Adds.warn c.position _).map
    | gridChild table column d =>
      exact (checkOperator_adds c d).warned (filterGrid_follows m c table column _ negated)
  | none =>
    have hunknown : Adds (warn c.position (.unknownField c.field)) () []
        ([.unknownField c.field].map (c.position, ·)) := .warn c.position _
    refine hunknown.warned ?_
    cases c.unknownChild? m with
    | some p => exact filterGrid_follows m c p.1 p.2 false negated
    | none => exact filter_follows m c _ false negated

theorem checkFunction_adds (f : FunctionCall) (d : FieldDefinition) :
    Adds (checkFunction f d) () [] ((if d.allowsFunction f.function then []
      else [PlanWarning.functionNotPermitted f.function d.id]).map (f.position, ·)) := by
  unfold checkFunction
  split
  · exact .pure ()
  · exact .warn _ _

theorem target_adds (f : FunctionCall) :
    Adds (target m f) (f.target? m) [] ((f.targetWarnings m).map (f.position, ·)) := by
  unfold target FunctionCall.targetWarnings
  rcases m.resolve? f.target with _ | (_ | _ | _)
  · exact (Adds.warn f.position _).map
  · exact (Adds.warn f.position _).map
  · exact (checkFunction_adds f _).map
  · exact (checkFunction_adds f _).map

theorem aggregation_follows (f : FunctionCall) (t : CallTarget) :
    Follows (aggregation m f t) f.position (f.planAggregate m t) := by
  unfold aggregation FunctionCall.planAggregate
  cases FunctionCall.aggregate? f.function t.column with
  | none => exact (Adds.warn f.position _).map
  | some a =>
    cases f.comparison with
    | some p =>
      obtain ⟨op, v⟩ := p
      cases hr : op.relation? with
      | some r =>
        dsimp only
        rw [hr]
        exact test_adds m _ false false (.relation r v)
      | none =>
        dsimp only
        rw [hr]
        exact (Adds.warn f.position _).map
    | none => cases f.function <;> exact .pure _

theorem check_follows (f : FunctionCall) (t : CallTarget) :
    Follows (check m f t) f.position (f.planCheck m t) := by
  unfold check FunctionCall.planCheck
  cases f.values with
  | nil =>
    dsimp only
    split
    · exact (Adds.warn f.position _).map
    · cases t.column <;> exact .pure _
  | cons v vs =>
    cases t.column with
    | none => exact (Adds.warn f.position _).map
    | some c =>
      dsimp only
      split
      · have hrows : Adds ((v :: vs).mapM (rowHas m t.table c))
            ((v :: vs).map (FunctionCall.rowHas m t.table c)) (m.literalIds (v :: vs)) [] := by
          rw [Mapping.literalIds, List.filterMap_eq_flatMap_toList]
          exact .mapM (fun v => (literal_adds m v).map) (v :: vs)
        have hone : (if vs = [] then Predicate.all ((v :: vs).map (FunctionCall.rowHas m t.table c))
            else .paren (.all ((v :: vs).map (FunctionCall.rowHas m t.table c)))) =
            if vs = [] then FunctionCall.rowHas m t.table c v else .paren (.all
              (FunctionCall.rowHas m t.table c v :: vs.map (FunctionCall.rowHas m t.table c))) := by
          split
          · rename_i hvs
            subst hvs
            rfl
          · rfl
        unfold Follows
        rw [← hone]
        exact hrows.map
      · exact (literals_adds m (v :: vs)).map

theorem onTarget_follows (f : FunctionCall) (t : Option CallTarget) :
    Follows (onTarget m f t) f.position (match t with
      | none => ⟨.never, [], []⟩
      | some t => if f.function.isAggregation then f.planAggregate m t else f.planCheck m t) := by
  cases t with
  | none => exact .pure _
  | some t =>
    unfold onTarget
    dsimp only
    split
    · exact aggregation_follows m f t
    · exact check_follows m f t

theorem call_follows (f : FunctionCall) : Follows (call m f) f.position (f.plan m) := by
  unfold Follows FunctionCall.plan
  rw [List.map_append]
  exact (Adds.use f.target).bind ((target_adds m f).bind (onTarget_follows m f (f.target? m)))

theorem leaf_follows (negated : Bool) (l : Leaf) :
    Follows (leaf m negated l) l.position (l.plan m negated) := by
  cases l with
  | comparison c => exact comparison_follows m negated c
  | call f => exact call_follows m f

/-- **A pass over a condition** gives its predicate, and adds what its leaves use and are warned of,
from left to right. -/
theorem condition_adds (c : Condition) :
    Adds (condition m c) (c.predicate m) (c.ids m) (c.warnings m) := by
  induction c with
  | leaf l =>
    unfold Condition.ids Condition.warnings
    rw [Condition.leaves, List.flatMap_singleton, List.flatMap_singleton]
    exact leaf_follows m false l
  | and a b iha ihb | or a b iha ihb =>
    unfold Condition.ids Condition.warnings at iha ihb ⊢
    rw [Condition.leaves, List.flatMap_append, List.flatMap_append]
    exact iha.bind ihb.map
  | not c ih =>
    unfold condition Condition.predicate
    cases hlist : c.list? with
    | none => exact ih.map
    | some l =>
      -- the negated list comparison is visited as such, but finds what the plain one would
      have hleaves : (Condition.not c).leaves = [.comparison l] :=
        (Condition.list?_eq_some hlist).2.1
      unfold Condition.ids Condition.warnings
      rw [hleaves, List.flatMap_singleton, List.flatMap_singleton, Leaf.plan, ← l.ids_plan_negated,
        ← l.warnings_plan_negated]
      exact comparison_follows m true l
  | group c ih => exact ih.map

end Leaves

/-- What the computation finds when it starts from nothing. -/
def findings {α : Type} (x : Pass α) : Findings := (x.run {}).2

theorem Adds.findings_eq {α : Type} {x : Pass α} {a : α} {ids : List String}
    {ws : List (Position × PlanWarning)} (h : Adds x a ids ws) :
    findings x = ⟨distinct ids, ws⟩ := by
  rw [findings, h, Findings.add, foldl_noted_nil]
  rfl

theorem state_condition (m : Mapping) (c : Condition) (s : Findings) :
    ((condition m c).run s).2 = c.leaves.foldl (fun s l => ((leaf m false l).run s).2) s := by
  have hfold (ls : List Leaf) (s : Findings) :
      ls.foldl (fun s l => ((leaf m false l).run s).2) s =
        s.add (ls.flatMap fun l => (l.plan m false).ids)
          (ls.flatMap fun l => (l.plan m false).warnings.map (l.position, ·)) := by
    induction ls generalizing s with
    | nil => exact s.add_nil.symm
    | cons l ls ih =>
      rw [List.foldl_cons, leaf_follows m false l s, ih, Findings.add_add]
      rfl
  rw [condition_adds m c s, hfold]
  rfl

end Pass

/-- **What is found depends on the leaves alone**, each visited once and from left to right, however
they are joined, negated and grouped. Rules are compiled with what the pass finds. -/
theorem Condition.findings_of_leaves (m : Mapping) {c d : Condition} (h : c.leaves = d.leaves) :
    Pass.findings (Pass.condition m c) = Pass.findings (Pass.condition m d) ∧
      Pass.findings (Pass.condition m c) =
        c.leaves.foldl (fun s l => ((Pass.leaf m false l).run s).2) {} ∧
      (Pass.findings (Pass.condition m c)).used =
        distinct (c.leaves.flatMap fun l => (l.plan m false).ids) ∧
      (∀ r : Rule, r.condition = some c →
        (r.plan m).predicate = ((Pass.condition m c).run {}).1 ∧
        (r.plan m).compiled.usedFields = (Pass.findings (Pass.condition m c)).used ∧
        (r.plan m).warnings = (Pass.findings (Pass.condition m c)).warnings ++ r.scoreWarnings) ∧
      ∀ s : Ruleset, s.usedFields = (s.rules.flatMap (·.usedFields)).foldl noted [] := by
  have hc := Pass.condition_adds m c
  refine ⟨?_, Pass.state_condition m c {}, by rw [hc.findings_eq]; rfl, fun r hr => ?_, fun s => ?_⟩
  · unfold Pass.findings
    rw [Pass.state_condition, Pass.state_condition, h]
  · rw [hc.findings_eq, hc {}, Rule.plan, hr]
    exact ⟨rfl, rfl, rfl⟩
  · rw [foldl_noted_nil]
    rfl

/-- A herd without goats or of more animals than years, and the same leaves joined otherwise. -/
theorem goatless_findings :
    let kind : Condition :=
      .leaf (.comparison ⟨"herd.kind", .isIn, .list [.string "goat"], ⟨3, 6⟩⟩)
    let count : Condition :=
      .leaf (.call ⟨.count, "herds", [], some (.gt, .identifier "age"), ⟨3, 40⟩⟩)
    let years : Condition := .leaf (.comparison ⟨"age", .contains, .single (.int 4), ⟨4, 6⟩⟩)
    let c : Condition := .or (.not (.group (.group kind))) (.group (.and count years))
    let d : Condition := .and (.or kind (.not count)) (.not years)
    c.leaves = d.leaves ∧
      Pass.findings (Pass.condition herdMapping c) = Pass.findings (Pass.condition herdMapping d) ∧
      (Pass.findings (Pass.condition herdMapping d)).used = ["herd.kind", "herds", "age"] ∧
      (Pass.findings (Pass.condition herdMapping d)).warnings =
        [(⟨3, 40⟩, .unknownField "herds"),
          (⟨4, 6⟩, .operatorNotApplicable .contains "age" .number)] := by
  intro kind count years c d
  have h : c.leaves = d.leaves := rfl
  exact ⟨h, (Condition.findings_of_leaves herdMapping h).1, by decide +kernel, by decide +kernel⟩

end Eligibility
