import Mathlib.Data.List.Basic
import Mathlib.Data.List.Induction
import Eligibility.Proofs.Registry.Order

/-!
# What a registry answers from

* `Registry.run`: a run of steps;
* `Registry.CanLoad`, `Registry.fields_cases`: whether a scope can be loaded, and the three outcomes
  that asking for its fields has;
* `Registry.Loads`: a step that loads a scope; `Registry.cache_step`: an entry of the cache was
  there before, or the step has just loaded it;
* `Registry.LatestLoad`, **`Registry.latestLoad_run`**: every entry comes from a load that no later
  load of the scope has replaced and no clearing has dropped;
* **`Registry.query_traced`**: so does every answer, in time.
-/

namespace Eligibility

namespace Registry

variable {r : Registry} {scope : String} {s : Step} {e : CacheEntry}

/-! ## Runs -/

/-- The registry after a run of steps. -/
def run (r : Registry) (ss : List Step) : Registry :=
  ss.foldl (fun r s => (r.step s).2) r

@[simp]
theorem run_nil (r : Registry) : r.run [] = r :=
  rfl

@[simp]
theorem run_cons (r : Registry) (s : Step) (ss : List Step) :
    r.run (s :: ss) = (r.step s).2.run ss :=
  rfl

theorem run_append (r : Registry) (ss ts : List Step) : r.run (ss ++ ts) = (r.run ss).run ts :=
  List.foldl_append

theorem run_concat (r : Registry) (ss : List Step) (s : Step) :
    r.run (ss ++ [s]) = ((r.run ss).step s).2 :=
  run_append r ss [s]

/-! ## Fields -/

/-- The fields of a scope that the source holds, in order. -/
def held (r : Registry) (scope : String) : List FieldDefinition :=
  sortFields (r.source.definitions.filter (·.scope = scope))

theorem live?_eq_some {ds : List FieldDefinition} :
    r.live? scope = some ds ↔
      ∃ e, r.cache[scope]? = some e ∧ r.now < e.expires ∧ e.fields = ds := by
  simp [live?, Option.bind_eq_some_iff]

/-- The source works, and the time at which its fields expire can be told. -/
structure CanLoad (r : Registry) : Prop where
  available : r.source.failure = none
  told : r.now + r.ttl < r.horizon

theorem canLoad_iff : r.CanLoad ↔ r.source.failure = none ∧ r.now + r.ttl < r.horizon :=
  ⟨fun h => ⟨h.available, h.told⟩, fun h => ⟨h.1, h.2⟩⟩

/-- The registry, had it asked its source `n` times more. -/
def more (r : Registry) (n : Nat) : Registry :=
  { r with loads := r.loads + n }

/-- The registry with the fields of a scope just loaded. -/
def loaded (r : Registry) (scope : String) : Registry :=
  { r.more 1 with cache := r.cache.insert scope ⟨r.held scope, r.now + r.ttl⟩ }

theorem getElem?_cache_loaded (r : Registry) (scope scope' : String) :
    (r.loaded scope').cache[scope]? =
      if scope' = scope then some ⟨r.held scope', r.now + r.ttl⟩ else r.cache[scope]? := by
  simp [loaded, Std.TreeMap.getElem?_insert]

theorem fields_of_live {ds : List FieldDefinition} (h : r.live? scope = some ds) :
    r.fields scope = (some (.ok ds), r) := by
  simp only [fields, h]

theorem fields_of_canLoad (h : r.live? scope = none) (hcan : r.CanLoad) :
    r.fields scope = (some (.ok (r.held scope)), r.loaded scope) := by
  have hafter : ({ r with loads := r.loads + 1 } : Registry).after? r.ttl =
      some (r.now + r.ttl) := after?_eq_some.2 ⟨hcan.told, rfl⟩
  simp only [fields, h, FieldSource.load, hcan.available, hafter]
  rfl

theorem fields_of_not_canLoad (h : r.live? scope = none) (hcan : ¬ r.CanLoad) :
    r.fields scope = (r.source.failure.map .error, r.more 1) := by
  cases hfail : r.source.failure with
  | some err =>
    simp only [fields, h, FieldSource.load, hfail]
    rfl
  | none =>
    have hafter : ({ r with loads := r.loads + 1 } : Registry).after? r.ttl = none :=
      after?_eq_none.2 (Nat.not_lt.1 fun htold => hcan ⟨hfail, htold⟩)
    simp only [fields, h, FieldSource.load, hfail, hafter]
    rfl

/-- Fields come from a live entry, or they cannot be loaded, or they are loaded. -/
theorem fields_cases (r : Registry) (scope : String) :
    (∃ e, r.cache[scope]? = some e ∧ r.now < e.expires ∧
      r.fields scope = (some (.ok e.fields), r)) ∨
    (¬ r.CanLoad ∧ r.fields scope = (r.source.failure.map .error, r.more 1)) ∨
    (r.CanLoad ∧ r.fields scope = (some (.ok (r.held scope)), r.loaded scope)) := by
  cases hlive : r.live? scope with
  | some ds =>
    obtain ⟨e, he, hnow, rfl⟩ := live?_eq_some.1 hlive
    exact .inl ⟨e, he, hnow, fields_of_live hlive⟩
  | none =>
    by_cases hcan : r.CanLoad
    · exact .inr (.inr ⟨hcan, fields_of_canLoad hlive hcan⟩)
    · exact .inr (.inl ⟨hcan, fields_of_not_canLoad hlive hcan⟩)

theorem step_query (r : Registry) (scope : String) (q : Query) :
    r.step (.query scope q) =
      ((r.fields scope).1.map fun ds => ds.map fun ds => q.answer scope ds,
        (r.fields scope).2) :=
  rfl

/-! ## Time -/

@[simp]
theorem ttl_fields (r : Registry) (scope : String) : (r.fields scope).2.ttl = r.ttl := by
  obtain ⟨e, -, -, h⟩ | ⟨-, h⟩ | ⟨-, h⟩ := r.fields_cases scope <;> rw [h] <;> rfl

@[simp]
theorem now_fields (r : Registry) (scope : String) : (r.fields scope).2.now = r.now := by
  obtain ⟨e, -, -, h⟩ | ⟨-, h⟩ | ⟨-, h⟩ := r.fields_cases scope <;> rw [h] <;> rfl

@[simp]
theorem ttl_step (r : Registry) (s : Step) : (r.step s).2.ttl = r.ttl := by
  cases s with
  | query scope q => simp [step_query]
  | _ => rfl

theorem now_le_step (r : Registry) (s : Step) : r.now ≤ (r.step s).2.now := by
  cases s with
  | advance time =>
    cases ht : r.after? time with
    | none => simp [step, ht]
    | some t =>
      obtain ⟨-, rfl⟩ := after?_eq_some.1 ht
      simp [step, ht]
  | query scope q => simp [step_query]
  | _ => exact Nat.le_refl _

@[simp]
theorem ttl_run (r : Registry) (ss : List Step) : (r.run ss).ttl = r.ttl := by
  induction ss generalizing r with
  | nil => rfl
  | cons s ss ih => rw [run_cons, ih, ttl_step]

theorem now_le_run (r : Registry) (ss : List Step) : r.now ≤ (r.run ss).now := by
  induction ss generalizing r with
  | nil => exact Nat.le_refl _
  | cons s ss ih => exact Nat.le_trans (r.now_le_step s) (ih _)

/-! ## Loads -/

/-- A step asks the source for the fields of a scope, gets them and keeps them. -/
structure Loads (r : Registry) (scope : String) (s : Step) : Prop where
  isQuery : ∃ q, s = .query scope q
  asked : (r.step s).2.loads = r.loads + 1
  canLoad : r.CanLoad

/-- **An entry of the cache was there before a step, or the step has just loaded it.** -/
theorem cache_step (h : (r.step s).2.cache[scope]? = some e) :
    (r.cache[scope]? = some e ∧ s ≠ .clear ∧ ¬ r.Loads scope s) ∨
    (r.Loads scope s ∧ e = ⟨r.held scope, r.now + r.ttl⟩) := by
  cases s with
  | query scope' q =>
    rw [step_query] at h
    obtain ⟨e', -, -, hf⟩ | ⟨hcan, hf⟩ | ⟨hcan, hf⟩ := r.fields_cases scope'
    · rw [hf] at h
      refine .inl ⟨h, nofun, fun hl => ?_⟩
      have hasked := hl.asked
      rw [step_query, hf] at hasked
      exact absurd hasked (by simp)
    · rw [hf] at h
      exact .inl ⟨h, nofun, fun hl => hcan hl.canLoad⟩
    · rw [hf, getElem?_cache_loaded] at h
      by_cases hs : scope' = scope
      · subst hs
        refine .inr ⟨⟨⟨q, rfl⟩, by rw [step_query, hf]; rfl, hcan⟩, ?_⟩
        simpa using h.symm
      · refine .inl ⟨by rwa [if_neg hs] at h, nofun, fun hl => ?_⟩
        obtain ⟨q', hq⟩ := hl.isQuery
        exact hs (Step.query.inj hq).1
  | clear => exact absurd h (by simp [step])
  | advance | replace | fail | recover => exact .inl ⟨h, nofun, fun hl => nomatch hl.isQuery⟩

theorem step_query_ok {q : Query} {a : Answer}
    (h : (r.step (.query scope q)).1 = some (.ok a)) :
    ∃ e, (r.step (.query scope q)).2.cache[scope]? = some e ∧ a = q.answer scope e.fields ∧
      (r.now < e.expires ∨ r.Loads scope (.query scope q)) := by
  have hs := r.step_query scope q
  obtain ⟨e, he, hnow, hf⟩ | ⟨-, hf⟩ | ⟨hcan, hf⟩ := r.fields_cases scope
  · rw [hf] at hs
    rw [hs] at h ⊢
    exact ⟨e, he, by simpa [Except.map] using h.symm, .inl hnow⟩
  · rw [hs, hf] at h
    cases hfail : r.source.failure <;> rw [hfail] at h <;> cases h
  · rw [hf] at hs
    have hl : r.Loads scope (.query scope q) := ⟨⟨q, rfl⟩, by rw [hs]; rfl, hcan⟩
    rw [hs] at h ⊢
    exact ⟨⟨r.held scope, r.now + r.ttl⟩, by simp [getElem?_cache_loaded],
      by simpa [Except.map] using h.symm, .inr hl⟩

/-! ## The load an answer comes from -/

/-- In a run of `before`, a query and `after`, the query loads the scope, and until the end the
scope is not loaded again and the cache not cleared. -/
structure LatestLoad (r : Registry) (scope : String) (before : List Step) (q : Query)
    (after : List Step) : Prop where
  loads : (r.run before).Loads scope (.query scope q)
  last (later : List Step) (s : Step) : later ++ [s] <+: after →
    ¬ (r.run (before ++ .query scope q :: later)).Loads scope s
  kept : .clear ∉ after

theorem LatestLoad.concat {before after : List Step} {q : Query}
    (h : r.LatestLoad scope before q after) (hs : s ≠ .clear)
    (hl : ¬ (r.run (before ++ .query scope q :: after)).Loads scope s) :
    r.LatestLoad scope before q (after ++ [s]) where
  loads := h.loads
  last later s' hp := by
    obtain heq | hp := List.prefix_concat_iff.1 hp
    · obtain ⟨rfl, hs'⟩ := List.append_inj' heq rfl
      exact (List.cons.inj hs').1 ▸ hl
    · exact h.last later s' hp
  kept := by simpa [h.kept] using hs.symm

/-- **Every entry of the cache comes from the latest load of its scope.** -/
theorem latestLoad_run (hr : r.cache[scope]? = none) (ss : List Step)
    (h : (r.run ss).cache[scope]? = some e) :
    ∃ before q after, ss = before ++ .query scope q :: after ∧
      r.LatestLoad scope before q after ∧
      e = ⟨(r.run before).held scope, (r.run before).now + r.ttl⟩ := by
  induction ss using List.reverseRecOn with
  | nil => rw [run_nil, hr] at h; cases h
  | append_singleton ss s ih =>
    rw [run_concat] at h
    obtain ⟨hkept, hclear, hl⟩ | ⟨hl, he⟩ := cache_step h
    · obtain ⟨before, q, after, rfl, hlatest, he⟩ := ih hkept
      exact ⟨before, q, after ++ [s], by simp, hlatest.concat hclear hl, he⟩
    · obtain ⟨q, rfl⟩ := hl.isQuery
      refine ⟨ss, q, [], rfl, ⟨hl, fun later s hp => ?_, nofun⟩, by rw [he, ttl_run]⟩
      simp at hp

/-- **An answer comes from the latest load of its scope**, which no clearing has followed, and which
was made in time or by the query itself. -/
theorem query_traced {q : Query} {a : Answer} (hr : r.cache = ∅) (ss : List Step)
    (h : ((r.run ss).step (.query scope q)).1 = some (.ok a)) :
    ∃ before q₀ after, ss ++ [.query scope q] = before ++ .query scope q₀ :: after ∧
      r.LatestLoad scope before q₀ after ∧
      (r.run before).now ≤ (r.run ss).now ∧
      (after = [] ∨ (r.run ss).now - (r.run before).now < r.ttl) ∧
      ∃ ds, StablySorted ((r.run before).source.definitions.filter (·.scope = scope)) ds ∧
        a = q.answer scope ds := by
  obtain ⟨e, he, ha, hlive⟩ := step_query_ok h
  rw [← run_concat] at he
  obtain ⟨before, q₀, after, hss, hlatest, rfl⟩ := latestLoad_run (by simp [hr]) _ he
  refine ⟨before, q₀, after, hss, hlatest, ?_⟩
  suffices htime : (r.run before).now ≤ (r.run ss).now ∧
      (after = [] ∨ (r.run ss).now - (r.run before).now < r.ttl) from
    ⟨htime.1, htime.2, (r.run before).held scope, stablySorted_sortFields _, ha⟩
  obtain rfl | ⟨later, s, rfl⟩ := after.eq_nil_or_concat'
  · -- The query itself has loaded the scope.
    obtain ⟨rfl, -⟩ := List.append_inj' hss rfl
    exact ⟨Nat.le_refl _, .inl rfl⟩
  · -- The query comes after the latest load, so it has found the entry live.
    obtain ⟨rfl, hs⟩ : ss = before ++ .query scope q₀ :: later ∧ [.query scope q] = [s] :=
      List.append_inj' (by simpa using hss) rfl
    obtain rfl := (List.cons.inj hs).1
    have hnow : (r.run (before ++ .query scope q₀ :: later)).now <
        (r.run before).now + r.ttl :=
      hlive.resolve_right (hlatest.last later _ List.prefix_rfl)
    have hle : (r.run before).now ≤ (r.run (before ++ .query scope q₀ :: later)).now := by
      rw [run_append]
      exact now_le_run _ _
    exact ⟨hle, .inr (by omega)⟩

/-! ## A run in which the source is lost -/

def herdFields : List FieldDefinition :=
  [{ FieldDefinition.plain "weight" .number with scope := "cow", category := "size" },
    { FieldDefinition.plain "row" .number with scope := "stall" },
    { FieldDefinition.plain "name" .text with scope := "cow", displayOrder := 1 }]

def herdRegistry : Registry :=
  { source := { definitions := herdFields }, ttl := 60 }

/-- The cows are loaded at 5, then the source is emptied and lost; at 64 the stall has expired. -/
def herdSteps : List Step :=
  [.query "stall" .fields, .advance 5, .query "cow" .groups, .replace [],
    .fail (.unavailable "down"), .advance 59, .query "stall" .fields]

theorem herdSteps_query_traced :
    ((herdRegistry.run herdSteps).step (.query "cow" (.isField "weight"))).1 =
        some (.ok (Query.answer "cow" ((herdRegistry.run (herdSteps.take 2)).held "cow")
          (.isField "weight"))) ∧
      ∃ before q₀ after,
        herdSteps ++ [.query "cow" (.isField "weight")] = before ++ .query "cow" q₀ :: after ∧
        herdRegistry.LatestLoad "cow" before q₀ after ∧
        (herdRegistry.run before).now ≤ 64 ∧
        (after = [] ∨ 64 - (herdRegistry.run before).now < 60) ∧
        ∃ ds, StablySorted
            ((herdRegistry.run before).source.definitions.filter (·.scope = "cow")) ds ∧
          Query.answer "cow" ((herdRegistry.run (herdSteps.take 2)).held "cow")
            (.isField "weight") = Query.answer "cow" ds (.isField "weight") :=
  ⟨rfl, query_traced (r := herdRegistry) rfl herdSteps rfl⟩

end Registry

end Eligibility
