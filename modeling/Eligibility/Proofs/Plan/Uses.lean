import Eligibility.Proofs.Distinct
import Eligibility.Proofs.Plan.Condition
import Eligibility.Proofs.Ruleset.Counts
import Mathlib.Data.List.Basic

/-!
# Fields that rules use

What a rule compiles to depends on the fields that it uses and on their grids alone.

* `Leaf.values`, `Leaf.mem_ids_plan`: a leaf uses its own field, and the base fields that its bare
  words name;
* `Mapping.without`, `resolve?_without`: a mapping without some of its fields;
* `Spares`, `Leaf.plan_without`, `Condition.predicate_without`, `Rule.plan_without`: fields that are
  not used may be removed;
* **`compile_usedFields`**: the used fields of a compiled rule.
-/

namespace Eligibility

open Sql (Term Predicate)

/-! ## The ids of a leaf -/

/-- The values that an operand holds. -/
def Operand.values : Operand → List Value
  | none => []
  | single v => [v]
  | range low high => [low, high]
  | list vs => vs

/-- The values that a leaf holds. -/
def Leaf.values : Leaf → List Value
  | comparison c => c.operand.values
  | call f => f.values ++ (f.comparison.map (·.2)).toList

/-- The ids that the operand of a comparison uses. -/
def Comparison.operandIds (m : Mapping) (c : Comparison) : List String :=
  c.test?.elim [] fun test => m.literalIds test.literals

section Ids

variable {m : Mapping}

/-- A test asks for the values of its operand, or for none. -/
theorem Operator.literals_test? {op : Operator} {operand : Operand} {test : Test}
    (h : op.test? operand = some test) :
    test.literals = [] ∨ test.literals = operand.values := by
  unfold Operator.test? at h
  split at h
  -- relations
  case h_8 =>
    obtain ⟨r, -, rfl⟩ := Option.map_eq_some_iff.1 h
    exact .inr rfl
  -- operands of another shape
  case h_9 => cases h
  -- ranges and lists
  case h_3 | h_4 => cases h; exact .inr rfl
  all_goals cases h; exact .inl rfl

theorem Mapping.wordColumn?_isSome {id : String} :
    (m.wordColumn? id).isSome = true ↔ ∃ column d, m.resolve? id = some (.base column d) := by
  unfold wordColumn?
  split
  · rename_i column d hr
    exact ⟨fun _ => ⟨column, d, hr⟩, fun _ => rfl⟩
  · rename_i hr
    exact ⟨nofun, fun ⟨column, d, h⟩ => absurd h (hr column d)⟩

/-- Values use the base fields that their bare words name. -/
theorem Mapping.mem_literalIds {vs : List Value} {id : String} :
    id ∈ m.literalIds vs ↔ .identifier id ∈ vs ∧ (m.wordColumn? id).isSome = true := by
  rw [literalIds, List.mem_filterMap]
  constructor
  · rintro ⟨v, hv, hid⟩
    cases v with
    | identifier w =>
      obtain ⟨column, hcolumn, rfl⟩ := Option.map_eq_some_iff.1 hid
      exact ⟨hv, by rw [hcolumn]; rfl⟩
    | _ => cases hid
  · rintro ⟨hv, hsome⟩
    obtain ⟨column, hcolumn⟩ := Option.isSome_iff_exists.1 hsome
    exact ⟨_, hv, by rw [literalId?, hcolumn]; rfl⟩

theorem Comparison.ids_planOn (c : Comparison) (t : Term) (nullOnly negated : Bool) :
    (c.planOn m t nullOnly negated).ids = c.operandIds m := by
  unfold planOn operandIds
  cases c.test? <;> rfl

theorem Comparison.mem_operandIds {c : Comparison} {id : String} (h : id ∈ c.operandIds m) :
    .identifier id ∈ c.operand.values ∧ (m.wordColumn? id).isSome = true := by
  unfold operandIds at h
  cases htest : c.test? with
  | none => rw [htest] at h; cases h
  | some test =>
    rw [htest] at h
    obtain ⟨hid, hword⟩ := Mapping.mem_literalIds.1 h
    rcases Operator.literals_test? htest with hnone | hall
    · rw [hnone] at hid; cases hid
    · exact ⟨hall ▸ hid, hword⟩

/-- A comparison uses its field and, unless that is a grid, what its operand uses. -/
theorem Comparison.ids_plan (c : Comparison) (negated : Bool) :
    (c.plan m negated).ids = c.field :: match m.resolve? c.field with
      | some (.grid _ _) => []
      | _ => c.operandIds m := by
  refine congrArg (c.field :: ·) ?_
  unfold planRest
  cases hr : m.resolve? c.field with
  | some r =>
    cases r with
    | base column d => exact c.ids_planOn ..
    | grid table d => rfl
    | gridChild table column d => exact c.ids_planOn ..
  | none =>
    dsimp only
    split
    · exact c.ids_planOn ..
    · exact c.ids_planOn ..

theorem FunctionCall.mem_ids_planAggregate {f : FunctionCall} {t : CallTarget} {id : String}
    (h : id ∈ (f.planAggregate m t).ids) :
    .identifier id ∈ (Leaf.call f).values ∧ (m.wordColumn? id).isSome = true := by
  have hplan := aggregatePlan_planAggregate m f t
  generalize f.planAggregate m t = p at h hplan
  cases hplan with
  | noColumn | notComparable | aboveZero | there => cases h
  | compared _ hcomparison =>
    obtain ⟨hid, hword⟩ := Mapping.mem_literalIds.1 h
    refine ⟨List.mem_append_right _ ?_, hword⟩
    rw [hcomparison]
    exact hid

theorem FunctionCall.mem_ids_planCheck {f : FunctionCall} {t : CallTarget} {id : String}
    (h : id ∈ (f.planCheck m t).ids) :
    .identifier id ∈ (Leaf.call f).values ∧ (m.wordColumn? id).isSome = true := by
  have hplan := checkPlan_planCheck m f t
  generalize f.planCheck m t = p at h hplan
  cases hplan with
  | nothing | row | filled | noColumn => cases h
  | has hvalues | hasAll hvalues | oneOf hvalues =>
    obtain ⟨hid, hword⟩ := Mapping.mem_literalIds.1 h
    exact ⟨List.mem_append_left _ (hvalues ▸ hid), hword⟩

/-- **A leaf uses its own id**, and besides it base fields that bare words among its values name. -/
theorem Leaf.mem_ids_plan {l : Leaf} {negated : Bool} {id : String}
    (h : id ∈ (l.plan m negated).ids) :
    id = l.id ∨ .identifier id ∈ l.values ∧ (m.wordColumn? id).isSome = true := by
  cases l with
  | comparison c =>
    rw [Leaf.plan, c.ids_plan, List.mem_cons] at h
    refine h.imp_right fun h => ?_
    split at h
    · cases h
    · exact Comparison.mem_operandIds h
  | call f =>
    refine (List.mem_cons.1 h).imp_right fun h => ?_
    split at h
    · cases h
    · split at h
      · exact FunctionCall.mem_ids_planAggregate h
      · exact FunctionCall.mem_ids_planCheck h

theorem Leaf.id_mem_plan (m : Mapping) (l : Leaf) (negated : Bool) :
    l.id ∈ (l.plan m negated).ids := by
  cases l <;> exact List.mem_cons_self

end Ids

/-! ## Fewer fields -/

/-- The mapping without the fields whose ids are removed. -/
def Mapping.without (m : Mapping) (removed : String → Bool) : Mapping :=
  { m with fields := m.fields.filter fun id _ => !removed id }

/-- None of the ids is removed, and no grid that one of them belongs to. -/
def Spares (removed : String → Bool) (ids : List String) : Prop :=
  ∀ id ∈ ids, removed id = false ∧ ∀ p, Text.cut? '.' id = some p → removed p.1 = false

theorem Spares.mono {removed : String → Bool} {ids ids' : List String} (h : Spares removed ids)
    (hsub : ∀ id ∈ ids', id ∈ ids) : Spares removed ids' :=
  fun id hid => h id (hsub id hid)

section Without

variable {m : Mapping} {removed : String → Bool}

theorem Mapping.getElem?_without (id : String) :
    (m.without removed).fields[id]? = if removed id then none else m.fields[id]? := by
  rw [without, Std.TreeMap.getElem?_filter']
  cases hid : m.fields[id]? <;> cases hremoved : removed id <;> simp [Option.filter]

theorem Mapping.gridTable?_without {id : String} (h : removed id = false) :
    (m.without removed).gridTable? id = m.gridTable? id := by
  rw [gridTable?, getElem?_without, if_neg (by simp [h]), gridTable?]

theorem Mapping.gridTable?_eq_none_of_removed {id : String} (h : removed id = true) :
    (m.without removed).gridTable? id = none := by
  rw [gridTable?, getElem?_without, if_pos h]
  rfl

theorem Mapping.resolve?_eq_none_of_removed {id : String} (h : removed id = true) :
    (m.without removed).resolve? id = none := by
  rw [resolve?, getElem?_without, if_pos h]
  rfl

variable (hm : (m.without removed).check = .ok ())
include hm

/-- A field that is kept is stored where it was, since its grid is kept along. -/
theorem Mapping.resolve?_without {id : String} (h : removed id = false) :
    (m.without removed).resolve? id = m.resolve? id := by
  have hkept : (m.without removed).fields[id]? = m.fields[id]? := by
    rw [getElem?_without, if_neg (by simp [h])]
  unfold resolve?
  rw [hkept]
  cases hf : m.fields[id]? with
  | none => rfl
  | some f =>
    cases hgrid : f.definition.isGrid with
    | true => simp [hgrid]
    | false =>
      cases hparent : f.definition.parent? with
      | none => simp [hgrid, hparent]
      | some grid =>
        -- the smaller mapping would not pass its check without the grid
        have hsome := gridTable?_of_check hm (hkept.trans hf) hgrid hparent
        have hspared : removed grid = false := by
          cases hremoved : removed grid with
          | false => rfl
          | true => rw [gridTable?_eq_none_of_removed hremoved] at hsome; cases hsome
        simp [hgrid, hparent, gridTable?_without hspared]

/-- A bare word names the column that it named, if the field with its id is kept. -/
theorem Mapping.wordColumn?_without {id : String}
    (h : (m.wordColumn? id).isSome = true → removed id = false) :
    (m.without removed).wordColumn? id = m.wordColumn? id := by
  cases hremoved : removed id with
  | false => rw [wordColumn?, resolve?_without hm hremoved]; rfl
  | true =>
    have hnone : m.wordColumn? id = none := by
      cases hword : m.wordColumn? id with
      | none => rfl
      | some column => rw [h (by rw [hword]; rfl)] at hremoved; cases hremoved
    rw [hnone, wordColumn?, resolve?_eq_none_of_removed hremoved]

/-! ## Plans with fewer fields -/

theorem Mapping.literal_without {vs : List Value} (h : Spares removed (m.literalIds vs)) :
    ∀ v ∈ vs, (m.without removed).literal v = m.literal v ∧
      (m.without removed).literalId? v = m.literalId? v := by
  intro v hv
  cases v with
  | identifier id =>
    have hword := wordColumn?_without hm fun hsome => (h id (mem_literalIds.2 ⟨hv, hsome⟩)).1
    constructor
    · rw [literal, hword, literal]
    · rw [literalId?, hword, literalId?]
  | bool b => cases b <;> exact ⟨rfl, rfl⟩
  | _ => exact ⟨rfl, rfl⟩

theorem Mapping.map_literal_without {vs : List Value} (h : Spares removed (m.literalIds vs)) :
    vs.map (m.without removed).literal = vs.map m.literal :=
  List.map_congr_left fun v hv => (literal_without hm h v hv).1

theorem Mapping.literalIds_without {vs : List Value} (h : Spares removed (m.literalIds vs)) :
    (m.without removed).literalIds vs = m.literalIds vs :=
  List.filterMap_congr fun v hv => (literal_without hm h v hv).2

theorem Test.predicate_without {test : Test} (h : Spares removed (m.literalIds test.literals))
    (t : Term) (nullOnly negated : Bool) :
    test.predicate (m.without removed) t nullOnly negated =
      test.predicate m t nullOnly negated := by
  have hliteral := fun v hv => (Mapping.literal_without hm h v hv).1
  cases test with
  | between low high =>
    rw [predicate, hliteral low (by simp [literals]), hliteral high (by simp [literals]), predicate]
  | oneOf vs =>
    have hmap := Mapping.map_literal_without hm h
    rw [predicate, predicate]
    rw [literals] at hmap
    rw [hmap]
  | relation r v => rw [predicate, hliteral v (by simp [literals]), predicate]
  | _ => rfl

theorem Comparison.planOn_without {c : Comparison} (h : Spares removed (c.operandIds m)) (t : Term)
    (nullOnly negated : Bool) :
    c.planOn (m.without removed) t nullOnly negated = c.planOn m t nullOnly negated := by
  unfold planOn
  cases htest : c.test? with
  | none => rfl
  | some test =>
    rw [operandIds, htest] at h
    dsimp only
    rw [Test.predicate_without hm h, Mapping.literalIds_without hm h]

theorem Comparison.planOnGrid_without {c : Comparison} (h : Spares removed (c.operandIds m))
    (table column : String) (nullOnly negated : Bool) :
    c.planOnGrid (m.without removed) table column nullOnly negated =
      c.planOnGrid m table column nullOnly negated := by
  have hon := planOn_without hm h (.column (m.gridColumn column)) nullOnly false
  exact congrArg (fun p : LeafPlan =>
    { p with predicate := .negatedIf negated (.rowExistsWhere (m.rows table) p.predicate) }) hon

omit hm in
theorem Comparison.unknownChild?_without {c : Comparison}
    (h : ∀ p, Text.cut? '.' c.field = some p → removed p.1 = false) :
    c.unknownChild? (m.without removed) = c.unknownChild? m := by
  unfold unknownChild?
  cases hcut : Text.cut? '.' c.field with
  | none => rfl
  | some p =>
    dsimp only [Option.bind_some]
    rw [Mapping.gridTable?_without (h p hcut)]
    rfl

theorem Comparison.planRest_without {c : Comparison} {negated : Bool}
    (h : Spares removed (c.plan m negated).ids) :
    c.planRest (m.without removed) negated = c.planRest m negated := by
  obtain ⟨hfield, hgrid⟩ := h c.field List.mem_cons_self
  rw [c.ids_plan] at h
  unfold planRest
  rw [Mapping.resolve?_without hm hfield, unknownChild?_without hgrid]
  cases hr : m.resolve? c.field with
  | some r =>
    rw [hr] at h
    cases r with
    | base column d =>
      have hrest := h.mono fun id => List.mem_cons_of_mem c.field
      dsimp only
      rw [planOn_without hm hrest]
      rfl
    | grid table d => rfl
    | gridChild table column d =>
      have hrest := h.mono fun id => List.mem_cons_of_mem c.field
      dsimp only
      rw [planOnGrid_without hm hrest]
  | none =>
    rw [hr] at h
    have hrest := h.mono fun id => List.mem_cons_of_mem c.field
    dsimp only
    cases c.unknownChild? m with
    | some p => dsimp only; rw [planOnGrid_without hm hrest]
    | none => dsimp only; rw [planOn_without hm hrest]

theorem FunctionCall.target?_without {f : FunctionCall} (hid : removed f.target = false)
    (hgrid : ∀ p, Text.cut? '.' f.target = some p → removed p.1 = false) :
    f.target? (m.without removed) = f.target? m := by
  unfold target?
  rw [Mapping.resolve?_without hm hid]
  cases hcut : Text.cut? '.' f.target with
  | none => rfl
  | some p =>
    dsimp only
    rw [Mapping.gridTable?_without (hgrid p hcut)]
    rfl

theorem FunctionCall.planAggregate_without {f : FunctionCall} {t : CallTarget}
    (h : Spares removed (f.planAggregate m t).ids) :
    f.planAggregate (m.without removed) t = f.planAggregate m t := by
  unfold planAggregate at h ⊢
  cases ha : aggregate? f.function t.column with
  | none => rfl
  | some a =>
    cases hcomparison : f.comparison with
    | none => rfl
    | some p =>
      obtain ⟨op, v⟩ := p
      cases hrelation : op.relation? with
      | none => simp only [hrelation]
      | some r =>
        simp only [ha, hcomparison, hrelation] at h ⊢
        rw [Mapping.literalIds_without hm h,
          (Mapping.literal_without hm h v List.mem_cons_self).1]
        rfl

theorem FunctionCall.planCheck_without {f : FunctionCall} {t : CallTarget}
    (h : Spares removed (f.planCheck m t).ids) :
    f.planCheck (m.without removed) t = f.planCheck m t := by
  unfold planCheck at h ⊢
  dsimp only at h ⊢
  split
  · rfl
  · rfl
  · rename_i v vs c hvalues hcolumn
    rw [hvalues, hcolumn] at h
    have h : Spares removed (m.literalIds (v :: vs)) := by
      dsimp only at h
      split at h <;> exact h
    have hrow : ∀ w ∈ v :: vs,
        rowHas (m.without removed) t.table c w = rowHas m t.table c w := fun w hw => by
      rw [rowHas, (Mapping.literal_without hm h w hw).1]
      rfl
    have hrows : vs.map (rowHas (m.without removed) t.table c) = vs.map (rowHas m t.table c) :=
      List.map_congr_left fun w hw => hrow w (List.mem_cons_of_mem v hw)
    rw [Mapping.literalIds_without hm h, Mapping.map_literal_without hm h, hrows,
      hrow v List.mem_cons_self]
    rfl

theorem FunctionCall.plan_without {f : FunctionCall} (h : Spares removed (f.plan m).ids) :
    f.plan (m.without removed) = f.plan m := by
  obtain ⟨hid, hgrid⟩ := h f.target List.mem_cons_self
  have hwarnings : f.targetWarnings (m.without removed) = f.targetWarnings m := by
    rw [targetWarnings, Mapping.resolve?_without hm hid, targetWarnings]
  unfold plan at h ⊢
  rw [target?_without hm hid hgrid, hwarnings]
  cases ht : f.target? m with
  | none => rfl
  | some t =>
    rw [ht] at h
    have hrest := h.mono fun id => List.mem_cons_of_mem f.target
    cases hagg : f.function.isAggregation with
    | true =>
      simp only [hagg, if_true] at hrest ⊢
      rw [planAggregate_without hm hrest]
    | false =>
      simp only [hagg, Bool.false_eq_true, if_false] at hrest ⊢
      rw [planCheck_without hm hrest]

/-- **The plan of a leaf needs the fields that it uses alone.** -/
theorem Leaf.plan_without {l : Leaf} {negated : Bool} (h : Spares removed (l.plan m negated).ids) :
    l.plan (m.without removed) negated = l.plan m negated := by
  cases l with
  | comparison c =>
    exact congrArg (fun p : LeafPlan => { p with ids := c.field :: p.ids })
      (Comparison.planRest_without hm h)
  | call f => exact FunctionCall.plan_without hm h

/-! ## Conditions and rules with fewer fields -/

namespace Condition

variable {c : Condition}

omit hm in
theorem spares_leaf (h : Spares removed (c.ids m)) {l : Leaf} (hl : l ∈ c.leaves) :
    Spares removed (l.plan m false).ids :=
  h.mono fun _ hid => List.mem_flatMap.2 ⟨l, hl, hid⟩

theorem predicate_without (h : Spares removed (c.ids m)) :
    c.predicate (m.without removed) = c.predicate m := by
  induction c with
  | leaf l => rw [predicate, Leaf.plan_without hm (spares_leaf h List.mem_cons_self), predicate]
  | and a b iha ihb | or a b iha ihb =>
    rw [ids, leaves, List.flatMap_append] at h
    have ha := iha (h.mono fun _ => List.mem_append_left _)
    have hb := ihb (h.mono fun _ => List.mem_append_right _)
    rw [predicate, ha, hb, predicate]
  | not c ih =>
    rw [predicate, predicate]
    cases hlist : c.list? with
    | none => dsimp only; rw [ih h]
    | some l =>
      -- The negated list comparison has a plan of its own, which uses the same fields.
      have hleaf := spares_leaf h (l := .comparison l) (by
        rw [leaves, (list?_eq_some hlist).2.1]
        exact List.mem_cons_self)
      dsimp only
      rw [Leaf.plan, l.ids_plan, ← l.ids_plan true] at hleaf
      exact congrArg LeafPlan.predicate (Leaf.plan_without (l := .comparison l) hm hleaf)
  | group c ih => rw [predicate, ih h, predicate]

theorem ids_without (h : Spares removed (c.ids m)) : c.ids (m.without removed) = c.ids m :=
  List.flatMap_congr fun _ hl => by rw [Leaf.plan_without hm (spares_leaf h hl)]

theorem warnings_without (h : Spares removed (c.ids m)) :
    c.warnings (m.without removed) = c.warnings m :=
  List.flatMap_congr fun _ hl => by rw [Leaf.plan_without hm (spares_leaf h hl)]

end Condition

/-- **The plan of a rule needs the fields that it uses alone.** -/
theorem Rule.plan_without {r : Rule} (h : Spares removed (r.plan m).ids) :
    r.plan (m.without removed) = r.plan m := by
  unfold plan at h ⊢
  cases hc : r.condition with
  | none => rfl
  | some c =>
    rw [hc] at h
    have h : Spares removed (c.ids m) := h.mono fun _ => mem_distinct.2
    dsimp only
    rw [Condition.predicate_without hm h, Condition.ids_without hm h,
      Condition.warnings_without hm h]

end Without

/-! ## Compiled rules -/

/-- The leaves of the condition. -/
def Rule.leaves (r : Rule) : List Leaf := r.condition.elim [] Condition.leaves

theorem Rule.mem_leaves {r : Rule} {l : Leaf} :
    l ∈ r.leaves ↔ ∃ c, r.condition = some c ∧ l ∈ c.leaves := by
  unfold leaves
  cases r.condition <;> simp

theorem Rule.mem_ids_plan {m : Mapping} {r : Rule} {id : String} :
    id ∈ (r.plan m).ids ↔ ∃ l ∈ r.leaves, id ∈ (l.plan m false).ids := by
  unfold plan leaves
  cases r.condition with
  | none => exact ⟨nofun, fun ⟨l, hl, _⟩ => nomatch hl⟩
  | some c => exact mem_distinct.trans List.mem_flatMap

theorem Rule.nodup_ids_plan (m : Mapping) (r : Rule) : (r.plan m).ids.Nodup := by
  unfold plan
  cases r.condition with
  | none => exact List.nodup_nil
  | some c => exact nodup_distinct _

/-- **The used fields of a compiled rule** are all that it needs of the mapping, apart from their
grids. They are the ids of the leaves and of the base fields that bare words name, each once. -/
theorem compile_usedFields {m : Mapping} (hm : m.check = .ok ()) (r : Rule)
    (code scope : String) :
    ∃ s cr, compile [r] code scope m = .ok s ∧ s.rules = [cr] ∧
      (∀ removed, Spares removed cr.usedFields → (m.without removed).check = .ok () →
        compile [r] code scope (m.without removed) = .ok s) ∧
      cr.usedFields.Nodup ∧
      (∀ l ∈ r.leaves, l.id ∈ cr.usedFields) ∧
      ∀ id ∈ cr.usedFields, (∃ l ∈ r.leaves, l.id = id) ∨
        (∃ l ∈ r.leaves, .identifier id ∈ l.values) ∧
          ∃ column d, m.resolve? id = some (.base column d) := by
  refine ⟨_, (r.plan m).compiled, compile_of_check [r] code scope hm, rfl,
    fun removed hspares hcheck => ?_, r.nodup_ids_plan m, fun l hl => ?_, fun id hid => ?_⟩
  · rw [compile_of_check [r] code scope hcheck, List.map_singleton,
      Rule.plan_without hcheck hspares]
    rfl
  · exact Rule.mem_ids_plan.2 ⟨l, hl, l.id_mem_plan m false⟩
  · obtain ⟨l, hl, hid⟩ := Rule.mem_ids_plan.1 hid
    rcases Leaf.mem_ids_plan hid with rfl | ⟨hvalue, hword⟩
    · exact .inl ⟨l, hl, rfl⟩
    · exact .inr ⟨⟨l, hl, hvalue⟩, Mapping.wordColumn?_isSome.1 hword⟩

/-- A count of a herd against an age uses both; the kind of animal may go. -/
theorem herdCount_usedFields :
    let r : Rule := { Rule.named "Many" with
      condition := some (.leaf (.call ⟨.count, "herd", [], some (.gt, .identifier "age"), {}⟩)) }
    let smaller := herdMapping.without (· == "herd.kind")
    herdMapping.check = .ok () ∧ smaller.check = .ok () ∧ smaller.contains "herd.kind" = false ∧
      ∃ s cr, compile [r] "RS" "HERDERS" herdMapping = .ok s ∧ s.rules = [cr] ∧
        cr.usedFields = ["herd", "age"] ∧ compile [r] "RS" "HERDERS" smaller = .ok s := by
  intro r smaller
  have hm : herdMapping.check = .ok () := by rfl
  have hsmaller : smaller.check = .ok () := by
    have hok : smaller.check.toBool = true := by decide +kernel
    cases h : smaller.check with
    | ok u => rfl
    | error e => rw [h] at hok; cases hok
  obtain ⟨s, cr, hs, hcr, hkept, -⟩ := compile_usedFields hm r "RS" "HERDERS"
  have hids : cr.usedFields = ["herd", "age"] := by
    rw [compile_eq_ok hs] at hcr
    cases hcr
    rfl
  refine ⟨hm, hsmaller, by decide +kernel, s, cr, hs, hcr, hids, hkept _ ?_ hsmaller⟩
  rw [hids]
  unfold Spares
  decide

end Eligibility
