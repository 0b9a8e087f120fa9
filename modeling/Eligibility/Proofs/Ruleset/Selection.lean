import Eligibility.Proofs.Ruleset.Clauses
import Eligibility.Proofs.Ruleset.Counts

/-!
# Which candidates are selected

The query for all candidates selects by `AND NOT` over the exclusion clause. In three-valued logic
that asks for more than the absence of an exclusion rule that holds: each of them has to be false.

* `selecting`, `formula_selection`: the formula over the rules that the query selects by;
* `eval_selecting_eq_true`, `eval_selecting_eq_false`, `eval_selecting_eq_unknown`: its truth
  value;
* **`fullQuery_selects`**: whom the query selects, and whom it passes over as unknown;
* `unknownAge_unselected`: a candidate that no exclusion rule disqualifies is not selected.
-/

namespace Eligibility

open Sql

/-! ## The formula -/

/-- Every gating rule holds and no exclusion rule does. -/
def selecting (rs : List Rule) : Formula Rule :=
  .and (.all ((gating rs).map .atom)) (.not (.any ((excluding rs).map .atom)))

/-- The rules enter the selection by what their predicates read as, whatever these are. -/
theorem formula_selection (m : Mapping) (rs : List Rule) :
    (selection (rs.map (Rule.plan m))).formula = (selecting rs).bind (Rule.meaning m) := by
  rw [selecting, Formula.bind, Formula.bind, ← formula_eligibility, ← formula_exclusion]
  rfl

section Value

variable (rs : List Rule) (v : Rule → Truth)

theorem eval_selecting : (selecting rs).eval v =
    (Truth.all ((gating rs).map v)).and (Truth.any ((excluding rs).map v)).not := by
  rw [selecting, Formula.eval, Formula.eval, Formula.eval_all, Formula.eval_any, List.map_map,
    List.map_map]
  rfl

/-- The selection is true when the gating rules are true and the exclusion rules false. -/
theorem eval_selecting_eq_true : (selecting rs).eval v = .true ↔
    (∀ r ∈ gating rs, v r = .true) ∧ ∀ r ∈ excluding rs, v r = .false := by
  simp only [eval_selecting, Truth.and_eq_true, Truth.not_eq_true, Truth.all_eq_true,
    Truth.any_eq_false, List.forall_mem_map]

/-- The selection is false when some gating rule is false or some exclusion rule true. -/
theorem eval_selecting_eq_false : (selecting rs).eval v = .false ↔
    (∃ r ∈ gating rs, v r = .false) ∨ ∃ r ∈ excluding rs, v r = .true := by
  simp only [eval_selecting, Truth.and_eq_false, Truth.not_eq_false, Truth.all_eq_false,
    Truth.any_eq_true, List.mem_map, exists_exists_and_eq_and]

/-- An unknown exclusion rule leaves the selection unknown where nothing makes it false. -/
theorem eval_selecting_eq_unknown (hg : ∀ r ∈ gating rs, v r = .true)
    (hx : ∀ r ∈ excluding rs, v r ≠ .true) (hu : ∃ r ∈ excluding rs, v r = .unknown) :
    (selecting rs).eval v = .unknown := by
  obtain ⟨r, hr, hru⟩ := hu
  cases hv : (selecting rs).eval v with
  | unknown => rfl
  | true =>
    have hfalse := ((eval_selecting_eq_true rs v).1 hv).2 r hr
    rw [hru] at hfalse
    cases hfalse
  | false =>
    obtain ⟨g, hmem, hfalse⟩ | ⟨x, hmem, htrue⟩ := (eval_selecting_eq_false rs v).1 hv
    · rw [hg g hmem] at hfalse
      cases hfalse
    · exact absurd htrue (hx x hmem)

end Value

/-! ## The query -/

section Compile

variable {m : Mapping} {rs : List Rule} {code scope : String} {s : Ruleset}

/-- **The query for all candidates selects** those for whom every gating rule is true and every
exclusion rule false. An unknown exclusion rule alone makes the condition unknown. -/
theorem fullQuery_selects (h : compile rs code scope m = .ok s) :
    s.fullQuery = s.scoringQuery ++ " WHERE " ++ (selection (rs.map (Rule.plan m))).text ++
      " ORDER BY total_score DESC" ∧
    (selection (rs.map (Rule.plan m))).formula = (selecting rs).bind (Rule.meaning m) ∧
    (m.Usable IsLiteral → (∀ r ∈ rs, r.Identified) →
      s.rules.map (fun c => read? c.whereClause) = rs.map (fun r => some (r.meaning m)) ∧
      (query? s.fullQuery).map (·.condition) = some ((selecting rs).bind (Rule.meaning m))) ∧
    ∀ v : Rule → Truth,
      ((selecting rs).eval v = .true ↔
        (∀ r ∈ gating rs, v r = .true) ∧ ∀ r ∈ excluding rs, v r = .false) ∧
      ((∀ r ∈ gating rs, v r = .true) → (∀ r ∈ excluding rs, v r ≠ .true) →
        (∃ r ∈ excluding rs, v r = .unknown) → (selecting rs).eval v = .unknown) := by
  obtain rfl := compile_eq_ok h
  refine ⟨rfl, formula_selection m rs, fun hm hr => ⟨read?_rules hm hr, ?_⟩,
    fun v => ⟨eval_selecting_eq_true rs v, eval_selecting_eq_unknown rs v⟩⟩
  rw [query?_fullQuery hm hr code scope]
  rfl

end Compile

/-- The herders older than 60 are out. -/
def elders : Rule :=
  { Rule.named "elders" with
    ruleType := .exclusion
    condition := some (.leaf (.comparison ⟨"age", .gt, .single (.int 60), {}⟩)) }

theorem herdRules_fullQuery_selects :
    ∃ s, compile herdRules "HERD" "HERDERS" herdMapping = .ok s ∧
      s.rules.map (fun c => read? c.whereClause) =
        herdRules.map (fun r => some (r.meaning herdMapping)) ∧
      (query? s.fullQuery).map (·.condition) =
        some ((selecting herdRules).bind (Rule.meaning herdMapping)) ∧
      (selecting herdRules).eval (fun r => if r.ruleType = .exclusion then .unknown else .true) =
        .unknown := by
  refine ⟨_, rfl, ?_⟩
  have hcompiled : compile herdRules "HERD" "HERDERS" herdMapping = .ok _ := rfl
  obtain ⟨-, -, hreads, hvalue⟩ := fullQuery_selects hcompiled
  obtain ⟨hrules, hquery⟩ := hreads herdMapping_usable (by decide +kernel)
  exact ⟨hrules, hquery, (hvalue _).2 (by decide +kernel) (by decide +kernel) (by decide +kernel)⟩

/-- A herder of unknown age is passed over, though the only exclusion rule does not hold. -/
theorem unknownAge_unselected :
    ∃ s, compile [elders] "HERD" "HERDERS" herdMapping = .ok s ∧
      gating [elders] = [] ∧ excluding [elders] = [elders] ∧
      (read? (elders.plan herdMapping).predicate.text).map (Formula.eval fun _ => .unknown) =
        some .unknown ∧
      (query? s.fullQuery).map (·.condition.eval fun _ => .unknown) = some .unknown := by
  have hrules : ∀ r ∈ [elders], r.Identified := by decide +kernel
  have hvalue : (elders.meaning herdMapping).eval (fun _ => .unknown) = .unknown := by
    decide +kernel
  refine ⟨_, rfl, rfl, rfl, ?_, ?_⟩
  · rw [Rule.read?_predicate herdMapping_usable (hrules elders List.mem_cons_self),
      Option.map_some, hvalue]
  · rw [query?_fullQuery herdMapping_usable hrules "HERD" "HERDERS", Option.map_some]
    exact congrArg (fun t => some (Truth.true.and (Truth.not t))) hvalue

end Eligibility
