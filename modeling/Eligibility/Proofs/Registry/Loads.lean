import Eligibility.Proofs.Registry.History

/-!
# When a registry asks its source

* `Registry.step_more`, `Registry.run_more`, `Registry.trace_more`: nothing depends on how often the
  source has been asked;
* `Registry.FreshLoad`: a load of the scope that still counts; **`Registry.live?_run_iff`**: a scope
  is live exactly after such a load;
* **`Registry.query_asks`**: a query asks the source once or not at all, and one that fails or
  breaks off leaves nothing behind;
* `Registry.endlessRegistry_asks`: an entry that would never expire is never kept.
-/

namespace Eligibility

namespace Registry

variable {r : Registry} {scope : String} {s : Step}

/-! ## The count of loads -/

@[simp]
theorem loads_more (r : Registry) (n : Nat) : (r.more n).loads = r.loads + n :=
  rfl

theorem canLoad_more (r : Registry) (n : Nat) : (r.more n).CanLoad ↔ r.CanLoad := by
  rw [canLoad_iff, canLoad_iff]
  rfl

theorem fields_more (r : Registry) (n : Nat) (scope : String) :
    (r.more n).fields scope = ((r.fields scope).1, (r.fields scope).2.more n) := by
  have hlive : (r.more n).live? scope = r.live? scope := rfl
  have hcan := r.canLoad_more n
  have hmore : (r.more n).more 1 = (r.more 1).more n := by simp [more, Nat.add_right_comm]
  cases h : r.live? scope with
  | some ds => rw [fields_of_live h, fields_of_live (hlive.trans h)]
  | none =>
    rw [h] at hlive
    by_cases hr : r.CanLoad
    · rw [fields_of_canLoad h hr, fields_of_canLoad hlive (hcan.2 hr)]
      exact congrArg (fun r' => (_, { r' with cache := (r.loaded scope).cache })) hmore
    · rw [fields_of_not_canLoad h hr, fields_of_not_canLoad hlive (mt hcan.1 hr), hmore]
      rfl

theorem step_more (r : Registry) (n : Nat) (s : Step) :
    (r.more n).step s = ((r.step s).1, (r.step s).2.more n) := by
  cases s with
  | query scope q => simp only [step_query, fields_more]
  | _ => rfl

theorem run_more (r : Registry) (n : Nat) (ss : List Step) :
    (r.more n).run ss = (r.run ss).more n := by
  induction ss generalizing r with
  | nil => rfl
  | cons s ss ih => rw [run_cons, run_cons, step_more, ih]

/-- What each step of a run answers, and how often it asks the source. -/
def trace (r : Registry) : List Step → List (Option (Except RegistryError Answer) × Nat)
  | [] => []
  | s :: ss => ((r.step s).1, (r.step s).2.loads - r.loads) :: (r.step s).2.trace ss

theorem trace_more (r : Registry) (n : Nat) (ss : List Step) :
    (r.more n).trace ss = r.trace ss := by
  induction ss generalizing r with
  | nil => rfl
  | cons s ss ih => simp only [trace, step_more, loads_more, ih, Nat.add_sub_add_right]

/-! ## Live scopes -/

/-- In a run, the scope was loaded after the cache was last cleared and less than the time to live
before the end. -/
def FreshLoad (r : Registry) (scope : String) (ss : List Step) : Prop :=
  ∃ before q after, ss = before ++ .query scope q :: after ∧
    (r.run before).Loads scope (.query scope q) ∧ .clear ∉ after ∧
    (r.run ss).now < (r.run before).now + r.ttl

/-- The cache has an entry for the scope that counts until `time` at least. -/
def KeptUntil (r : Registry) (scope : String) (time : Nat) : Prop :=
  ∃ e, r.cache[scope]? = some e ∧ time ≤ e.expires

theorem isSome_live?_iff : (r.live? scope).isSome ↔ r.KeptUntil scope (r.now + 1) := by
  simp only [Option.isSome_iff_exists, live?_eq_some, KeptUntil, Nat.add_one_le_iff]
  exact ⟨fun ⟨_, e, he, hnow, _⟩ => ⟨e, he, hnow⟩, fun ⟨e, he, hnow⟩ => ⟨_, e, he, hnow, rfl⟩⟩

/-- A load keeps the scope for the time to live. -/
theorem Loads.keptUntil (h : r.Loads scope s) :
    (r.step s).2.KeptUntil scope (r.now + r.ttl) := by
  obtain ⟨q, rfl⟩ := h.isQuery
  have hasked := h.asked
  rw [step_query] at hasked ⊢
  obtain ⟨e, -, -, hf⟩ | ⟨hcan, -⟩ | ⟨-, hf⟩ := r.fields_cases scope
  · simp [hf] at hasked
  · exact absurd h.canLoad hcan
  · exact ⟨⟨r.held scope, r.now + r.ttl⟩, by simp [hf, getElem?_cache_loaded], Nat.le_refl _⟩

/-- Only clearing shortens what is kept: an entry stays in place until a later one replaces it. -/
theorem KeptUntil.step {time : Nat} (h : r.KeptUntil scope time) (htime : time ≤ r.now + r.ttl)
    (hs : s ≠ .clear) : (r.step s).2.KeptUntil scope time := by
  obtain ⟨e, he, hle⟩ := h
  cases s with
  | query scope' q =>
    rw [step_query]
    obtain ⟨e', -, -, hf⟩ | ⟨-, hf⟩ | ⟨-, hf⟩ := r.fields_cases scope'
    · exact ⟨e, by simpa [hf] using he, hle⟩
    · exact ⟨e, by rw [hf]; exact he, hle⟩
    · by_cases hscope : scope' = scope
      · subst hscope
        exact ⟨⟨r.held scope', r.now + r.ttl⟩, by simp [hf, getElem?_cache_loaded], htime⟩
      · exact ⟨e, by simpa [hf, getElem?_cache_loaded, hscope] using he, hle⟩
  | clear => exact absurd rfl hs
  | advance | replace | fail | recover => exact ⟨e, he, hle⟩

theorem KeptUntil.run {time : Nat} (h : r.KeptUntil scope time) (htime : time ≤ r.now + r.ttl)
    {ss : List Step} (hss : .clear ∉ ss) : (r.run ss).KeptUntil scope time := by
  induction ss generalizing r with
  | nil => exact h
  | cons s ss ih =>
    obtain ⟨hs, hss⟩ := not_or.1 (mt List.mem_cons.2 hss)
    have hnow := r.now_le_step s
    rw [run_cons]
    exact ih (h.step htime (Ne.symm hs)) (by rw [ttl_step]; omega) hss

/-- **A scope is live exactly when a load of it still counts.** -/
theorem live?_run_iff (hr : r.cache = ∅) (ss : List Step) :
    ((r.run ss).live? scope).isSome ↔ r.FreshLoad scope ss := by
  rw [isSome_live?_iff]
  constructor
  · rintro ⟨e, he, hnow⟩
    obtain ⟨before, q, after, hss, hlatest, rfl⟩ := latestLoad_run (by simp [hr]) ss he
    exact ⟨before, q, after, hss, hlatest.loads, hlatest.kept, hnow⟩
  · rintro ⟨before, q, after, rfl, hl, hclear, hnow⟩
    have hkept := hl.keptUntil
    rw [ttl_run] at hkept
    have htime := (r.run before).now_le_step (.query scope q)
    rw [run_append, run_cons] at hnow ⊢
    obtain ⟨e, he, hle⟩ := hkept.run (by simpa using htime) hclear
    exact ⟨e, he, by omega⟩

/-! ## Queries -/

/-- A query about a live scope is answered, and leaves the registry as it is. -/
theorem step_query_live (h : (r.live? scope).isSome) (q : Query) :
    ∃ a, r.step (.query scope q) = (some (.ok a), r) := by
  obtain ⟨ds, hds⟩ := Option.isSome_iff_exists.1 h
  exact ⟨q.answer scope ds, by simp only [step_query, fields, hds]; rfl⟩

/-- A query about another scope asks the source once. -/
theorem step_query_asks (h : ¬ (r.live? scope).isSome) (q : Query) :
    (r.step (.query scope q)).2.loads = r.loads + 1 ∧
    (r.CanLoad → ∃ a, (r.step (.query scope q)).1 = some (.ok a)) ∧
    (¬ r.CanLoad → r.step (.query scope q) = (r.source.failure.map .error, r.more 1)) := by
  rw [step_query]
  obtain ⟨e, he, hnow, -⟩ | ⟨hcan, hf⟩ | ⟨hcan, hf⟩ := r.fields_cases scope
  · exact absurd (isSome_live?_iff.2 ⟨e, he, hnow⟩) h
  · rw [hf]
    refine ⟨rfl, fun h => absurd h hcan, fun _ => ?_⟩
    cases r.source.failure <;> rfl
  · rw [hf]
    exact ⟨rfl, fun _ => ⟨q.answer scope (r.held scope), rfl⟩, fun h => absurd hcan h⟩

/-- **A query asks the source exactly when no load of its scope counts any more.** One that is not
answered then, as the source fails or the expiry cannot be told, leaves nothing behind but the count
of loads. -/
theorem query_asks (hr : r.cache = ∅) (ss : List Step) (scope : String) (q : Query) :
    (r.FreshLoad scope ss →
      ∃ a, (r.run ss).step (.query scope q) = (some (.ok a), r.run ss)) ∧
    (¬ r.FreshLoad scope ss →
      ((r.run ss).step (.query scope q)).2.loads = (r.run ss).loads + 1 ∧
      ((r.run ss).CanLoad → ∃ a, ((r.run ss).step (.query scope q)).1 = some (.ok a)) ∧
      (¬ (r.run ss).CanLoad →
        ((r.run ss).step (.query scope q)).1 = (r.run ss).source.failure.map .error ∧
        ∀ later : List Step,
          r.run (ss ++ .query scope q :: later) = (r.run (ss ++ later)).more 1 ∧
          (r.run (ss ++ [.query scope q])).trace later = (r.run ss).trace later)) := by
  rw [← live?_run_iff hr]
  refine ⟨fun hlive => step_query_live hlive q, fun hlive => ?_⟩
  obtain ⟨hasks, hanswered, hlost⟩ := step_query_asks hlive q
  refine ⟨hasks, hanswered, fun hcan => ?_⟩
  have hquery := hlost hcan
  refine ⟨by rw [hquery], fun later => ⟨?_, ?_⟩⟩
  · rw [run_append, run_cons, hquery, run_more, run_append]
  · rw [run_concat, hquery, trace_more]

/-- At 64 the stall has expired and the source is down; the cows are still served. -/
theorem herdSteps_query_asks :
    (∃ a, (herdRegistry.run herdSteps).step (.query "cow" .groups) =
      (some (.ok a), herdRegistry.run herdSteps)) ∧
    ((herdRegistry.run herdSteps).step (.query "stall" .fields)).1 =
      some (.error (.unavailable "down")) ∧
    ∀ later : List Step,
      (herdRegistry.run (herdSteps ++ [.query "stall" .fields])).trace later =
        (herdRegistry.run herdSteps).trace later := by
  have hcow := query_asks (r := herdRegistry) rfl herdSteps "cow" .groups
  have hstall := query_asks (r := herdRegistry) rfl herdSteps "stall" .fields
  have hfresh : herdRegistry.FreshLoad "cow" herdSteps :=
    (live?_run_iff rfl herdSteps).1 rfl
  have hexpired : ¬ herdRegistry.FreshLoad "stall" herdSteps :=
    fun h => nomatch (live?_run_iff rfl herdSteps).2 h
  have hcan : ¬ (herdRegistry.run herdSteps).CanLoad := fun h => nomatch h.available
  have hfailed := (hstall.2 hexpired).2.2 hcan
  exact ⟨hcow.1 hfresh, hfailed.1, fun later => (hfailed.2 later).2⟩

/-- Fields are kept for as long as a duration can last. -/
def endlessRegistry : Registry := { herdRegistry with ttl := 2 ^ 64 * 1000 - 1 }

/-- The source works and no time goes by, but the second query asks it again, as the time at which
the fields expire cannot be told. -/
theorem endlessRegistry_asks :
    let q := Step.query "cow" .fields
    let r := endlessRegistry.run [q]
    endlessRegistry.source.failure = none ∧ r.now = endlessRegistry.now ∧
      (endlessRegistry.step q).1 = none ∧ r.loads = 1 ∧
      (r.step q).1 = none ∧ (r.step q).2.loads = 2 :=
  ⟨rfl, rfl, rfl, rfl, rfl, rfl⟩

end Registry

end Eligibility
