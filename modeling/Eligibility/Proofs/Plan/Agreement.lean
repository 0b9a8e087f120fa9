import Eligibility.Proofs.Field.Resolution
import Eligibility.Proofs.Plan.Filter
import Eligibility.Proofs.Plan.Negation

/-!
# Comparisons and grid checks on grid children

A list comparison on a column of a grid asks for the same rows as a grid check. The two plans find
the column on their own ways, and they agree on it for mapped and for unmapped children alike.

* `Mapping.IsChild`, `exists_column`: the ids that stand for a column of a known grid;
* `Condition.SameSql`: conditions with the same predicate and the same fields;
* `sameSql_hasAny`, `sameSql_hasNone`, `sameSql_hasAll`: the three pairs of conditions;
* **`compile_child`**: rulesets that differ by such a pair compile to the same SQL.
-/

namespace Eligibility

open Sql (Predicate Column)

/-! ## Columns of grids -/

/-- A dotted id whose first part is the grid of a table; it is not mapped, or not as a grid. -/
structure Mapping.IsChild (m : Mapping) (id table : String) : Prop where
  grid : ∃ parent, Text.cut? '.' id = some parent ∧ m.gridTable? parent.1 = some table
  notGrid : ∀ d, m.definition? id = some d → d.isGrid = false

section Column

variable {m : Mapping} {id table : String}

/-- A comparison and a call find the same column of a child: the mapped one, or the one by
convention. -/
theorem Mapping.IsChild.exists_column (hcheck : m.check = .ok ()) (hm : m.Keyed)
    (h : m.IsChild id table) : ∃ (column : String) (nullOnly : Bool),
      (∀ c : Comparison, c.field = id →
        c.subject? m = some ⟨some table, .column (m.gridColumn column), nullOnly⟩) ∧
      ∀ f : FunctionCall, f.target = id →
        f.target? m = some ⟨table, some (m.gridColumn column)⟩ := by
  obtain ⟨⟨grid, child⟩, hcut, htable⟩ := h.grid
  have hstored := Mapping.stored_resolve? hcheck hm id
  generalize hr : m.resolve? id = r at hstored
  cases hstored with
  | nowhere hf =>
    refine ⟨m.schema.columnPrefix ++ child, false, fun c hc => ?_, fun f hf => ?_⟩
    · subst hc
      have hchild : c.unknownChild? m = some (table, m.schema.columnPrefix ++ child) :=
        Comparison.unknownChild?_eq_some.2 ⟨grid, child, hcut, htable, rfl⟩
      rw [Comparison.subject?, hr, hchild]
    · subst hf
      rw [FunctionCall.target?, hr]
      simp only [hcut, htable, Option.getD_some]
  | grid hf hgrid =>
    have := h.notGrid _ (by rw [Mapping.definition?, hf, Option.map_some])
    rw [hgrid] at this
    cases this
  | base hf hgrid hnone =>
    rw [hcut] at hnone
    cases hnone
  | @gridChild f parent table' hf hgrid hcut' htable' =>
    -- the grid of the field is the one that the id names
    obtain rfl : (grid, child) = parent := Option.some.inj (hcut.symm.trans hcut')
    obtain rfl : table = table' := Option.some.inj (htable.symm.trans htable')
    refine ⟨f.target, f.definition.fieldType.nullMeansEmpty, fun c hc => ?_, fun g hg => ?_⟩
    · subst hc
      rw [Comparison.subject?, hr]
    · subst hg
      rw [FunctionCall.target?, hr]

end Column

/-! ## Conditions with the same SQL -/

namespace Condition

/-- The conditions have the same predicate, and they use the same fields in the same order. -/
def SameSql (m : Mapping) (a b : Condition) : Prop :=
  a.predicate m = b.predicate m ∧ a.ids m = b.ids m

section Pairs

variable {m : Mapping} {id table : String} (hcheck : m.check = .ok ()) (hm : m.Keyed)
  (hid : m.IsChild id table)
include hcheck hm hid

theorem sameSql_hasAny {vs : List Value} (hvs : vs ≠ []) (p q : Position) :
    SameSql m (leaf (.comparison ⟨id, .isIn, .list vs, p⟩))
      (leaf (.call ⟨.hasAny, id, vs, none, q⟩)) := by
  obtain ⟨column, nullOnly, hsubject, htarget⟩ := hid.exists_column hcheck hm
  obtain ⟨v, vs, rfl⟩ := List.exists_cons_of_ne_nil hvs
  have hc := Comparison.plan_of_subject (hsubject ⟨id, .isIn, .list (v :: vs), p⟩ rfl) false
  have hf := htarget ⟨.hasAny, id, v :: vs, none, q⟩ rfl
  constructor
  · simp only [predicate, Leaf.plan, FunctionCall.plan, hc, hf]
    rfl
  · simp only [ids, leaves, List.flatMap_singleton, Leaf.plan, FunctionCall.plan, hc, hf]
    rfl

theorem sameSql_hasNone {vs : List Value} (hvs : vs ≠ []) (n : Nat) (p q : Position) :
    SameSql m (not ((leaf (.comparison ⟨id, .isIn, .list vs, p⟩)).grouped n))
      (leaf (.call ⟨.hasNone, id, vs, none, q⟩)) := by
  obtain ⟨column, nullOnly, hsubject, htarget⟩ := hid.exists_column hcheck hm
  obtain ⟨v, vs, rfl⟩ := List.exists_cons_of_ne_nil hvs
  have hc := Comparison.plan_of_subject (hsubject ⟨id, .isIn, .list (v :: vs), p⟩ rfl)
  have hf := htarget ⟨.hasNone, id, v :: vs, none, q⟩ rfl
  constructor
  · have hlist : (leaf (.comparison ⟨id, .isIn, .list (v :: vs), p⟩)).list? =
        some ⟨id, .isIn, .list (v :: vs), p⟩ := rfl
    simp only [predicate, list?_grouped, hlist, Leaf.plan, FunctionCall.plan, hc, hf]
    rfl
  · simp only [ids, leaves, leaves_grouped, List.flatMap_singleton, Leaf.plan, FunctionCall.plan,
      hc, hf]
    rfl

theorem sameSql_hasAll (v : Value) (p q : Position) :
    SameSql m (leaf (.comparison ⟨id, .eq, .single v, p⟩))
      (leaf (.call ⟨.hasAll, id, [v], none, q⟩)) := by
  obtain ⟨column, nullOnly, hsubject, htarget⟩ := hid.exists_column hcheck hm
  have hc := Comparison.plan_of_subject (hsubject ⟨id, .eq, .single v, p⟩ rfl) false
  have hf := htarget ⟨.hasAll, id, [v], none, q⟩ rfl
  constructor
  · simp only [predicate, Leaf.plan, FunctionCall.plan, hc, hf]
    rfl
  · simp only [ids, leaves, List.flatMap_singleton, Leaf.plan, FunctionCall.plan, hc, hf]
    rfl

end Pairs

end Condition

/-! ## Rulesets -/

/-- The plan without its warnings and without the condition of its rule. -/
def RulePlan.bare (p : RulePlan) : RulePlan :=
  { p with rule := { p.rule with condition := none }, warnings := [] }

section Bare

variable (ps : List RulePlan)

theorem eligibility_bare : eligibility (ps.map .bare) = eligibility ps := by
  rw [eligibility, List.filter_map, List.map_map]
  rfl

theorem exclusion_bare : exclusion (ps.map .bare) = exclusion ps := by
  rw [exclusion, List.filter_map, List.map_map]
  rfl

theorem scoreCases_bare : scoreCases (ps.map .bare) = scoreCases ps := by
  rw [scoreCases, List.filter_map, List.map_map]
  rfl

end Bare

/-- The rulesets are the same, their warnings aside. -/
def Ruleset.SameSql (s t : Ruleset) : Prop := { s with warnings := [] } = { t with warnings := [] }

/-- Neither the warnings nor the conditions of plans show in the SQL of a ruleset. -/
theorem assemble_bare (code scope : String) (m : Mapping) (ps : List RulePlan) :
    (assemble code scope m (ps.map .bare)).SameSql (assemble code scope m ps) := by
  have hcount (t : RuleType) : (ps.map RulePlan.bare).countP (·.rule.ruleType = t) =
      ps.countP (·.rule.ruleType = t) := List.countP_map
  have hrules : (ps.map RulePlan.bare).map RulePlan.compiled = ps.map RulePlan.compiled := by
    rw [List.map_map]
    rfl
  simp only [Ruleset.SameSql, assemble, selection, eligibility_bare, exclusion_bare,
    scoreCases_bare, hcount, hrules, List.length_map]

/-- The rule with another condition. -/
def Rule.withCondition (r : Rule) (c : Condition) : Rule := { r with condition := some c }

/-- Whatever rule has them as its condition, and whatever rules stand around it, the two compile to
the same SQL. -/
def Condition.CompileAlike (m : Mapping) (a b : Condition) : Prop :=
  ∀ (before after : List Rule) (r : Rule) (code scope : String), ∃ s t,
    compile (before ++ r.withCondition a :: after) code scope m = .ok s ∧
      compile (before ++ r.withCondition b :: after) code scope m = .ok t ∧ s.SameSql t

theorem Condition.SameSql.compileAlike {m : Mapping} (hcheck : m.check = .ok ()) {a b : Condition}
    (h : SameSql m a b) : CompileAlike m a b := by
  intro before after r code scope
  refine ⟨_, _, compile_of_check _ code scope hcheck, compile_of_check _ code scope hcheck, ?_⟩
  have hbare : ((r.withCondition a).plan m).bare = ((r.withCondition b).plan m).bare := by
    simp only [Rule.withCondition, Rule.plan, RulePlan.bare, h.1, h.2]
  have hplans : ((before ++ r.withCondition a :: after).map (Rule.plan m)).map RulePlan.bare =
      ((before ++ r.withCondition b :: after).map (Rule.plan m)).map .bare := by
    simp only [List.map_append, List.map_cons, hbare]
  have ha := assemble_bare code scope m ((before ++ r.withCondition a :: after).map (Rule.plan m))
  rw [hplans] at ha
  exact ha.symm.trans (assemble_bare code scope m _)

/-- **Comparisons and grid checks agree on grid children:** a list comparison is `HAS_ANY`, its
negation through any groups is `HAS_NONE`, and an equality is `HAS_ALL` of one value. -/
theorem compile_child {scope : String} {schema : Schema} {steps : List BuildStep}
    (h : (Mapping.build scope schema steps).check = .ok ()) {id table : String}
    (hid : (Mapping.build scope schema steps).IsChild id table) {vs : List Value} (hvs : vs ≠ [])
    (v : Value) (n : Nat) (p q : Position) :
    let m := Mapping.build scope schema steps
    let isIn := Condition.leaf (.comparison ⟨id, .isIn, .list vs, p⟩)
    let equals := Condition.leaf (.comparison ⟨id, .eq, .single v, p⟩)
    let check (f : GridFunction) (vs : List Value) := Condition.leaf (.call ⟨f, id, vs, none, q⟩)
    isIn.CompileAlike m (check .hasAny vs) ∧
      (Condition.not (isIn.grouped n)).CompileAlike m (check .hasNone vs) ∧
      equals.CompileAlike m (check .hasAll [v]) :=
  have hm := Mapping.keyed_build scope schema steps
  ⟨(Condition.sameSql_hasAny h hm hid hvs p q).compileAlike h,
    (Condition.sameSql_hasNone h hm hid hvs n p q).compileAlike h,
    (Condition.sameSql_hasAll h hm hid v p q).compileAlike h⟩

/-- A herd in a table of its own, where the kind of an animal is the column `species`. -/
def speciesSteps : List BuildStep :=
  [.grid "herd" "farm.herd", .field "herd.kind" .lookup, .column "herd.kind" "species"]

/-- The kind of an animal is mapped, and its age is not. -/
theorem herdChildren_compile :
    let m := Mapping.build "HERDERS" {} speciesSteps
    let kinds : List Value := [.string "goat", .identifier "cow"]
    let isIn := Condition.leaf (.comparison ⟨"herd.kind", .isIn, .list kinds, {}⟩)
    m.check = .ok () ∧ m.IsChild "herd.kind" "farm.herd" ∧ m.IsChild "herd.age" "farm.herd" ∧
      (Condition.not (.group isIn)).CompileAlike m
        (.leaf (.call ⟨.hasNone, "herd.kind", kinds, none, {}⟩)) ∧
      (Condition.leaf (.comparison ⟨"herd.age", .eq, .single (.int 3), {}⟩)).CompileAlike m
        (.leaf (.call ⟨.hasAll, "herd.age", [.int 3], none, {}⟩)) := by
  have h : (Mapping.build "HERDERS" {} speciesSteps).check = .ok () := by rfl
  have hkind : (Mapping.build "HERDERS" {} speciesSteps).IsChild "herd.kind" "farm.herd" :=
    ⟨⟨("herd", "kind"), by decide, by rfl⟩, fun d hd => by obtain rfl := Option.some.inj hd; rfl⟩
  have hage : (Mapping.build "HERDERS" {} speciesSteps).IsChild "herd.age" "farm.herd" :=
    ⟨⟨("herd", "age"), by decide, by rfl⟩, fun d hd => by cases hd⟩
  exact ⟨h, hkind, hage,
    (compile_child h hkind (List.cons_ne_nil _ _) (.int 3) 1 {} {}).2.1,
    (compile_child h hage (List.cons_ne_nil (.int 3) []) (.int 3) 0 {} {}).2.2⟩

end Eligibility
