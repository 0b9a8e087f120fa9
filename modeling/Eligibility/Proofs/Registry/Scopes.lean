import Eligibility.Proofs.Registry.Loads

/-!
# Scopes of a registry

* `Registry.Agrees`: two registries are alike for one scope; `Registry.agrees_fields_of_ne`: a
  registry is so before and after a query about another scope;
* `Registry.Agrees.fields_fst`, `Registry.Agrees.asks`, `Registry.Agrees.step`: alike registries
  answer alike, ask the source alike and stay alike;
* `Registry.Thinned`: a run without some of its queries about other scopes;
* `Registry.observed`, **`Registry.observed_thinned`**: what is seen of a scope does not depend on
  them.
-/

namespace Eligibility

namespace Registry

variable {r r' : Registry} {scope scope' : String} {s : Step}

/-! ## Registries that agree on a scope -/

/-- Two registries differ at most in the entries of other scopes and in their counts of loads. -/
structure Agrees (scope : String) (r r' : Registry) : Prop where
  source : r.source = r'.source
  ttl : r.ttl = r'.ttl
  now : r.now = r'.now
  horizon : r.horizon = r'.horizon
  entry : r.cache[scope]? = r'.cache[scope]?

theorem Agrees.refl (scope : String) (r : Registry) : Agrees scope r r :=
  ⟨rfl, rfl, rfl, rfl, rfl⟩

theorem Agrees.trans {r'' : Registry} (h : Agrees scope r r') (h' : Agrees scope r' r'') :
    Agrees scope r r'' :=
  ⟨h.source.trans h'.source, h.ttl.trans h'.ttl, h.now.trans h'.now, h.horizon.trans h'.horizon,
    h.entry.trans h'.entry⟩

theorem Agrees.symm (h : Agrees scope r r') : Agrees scope r' r :=
  ⟨h.source.symm, h.ttl.symm, h.now.symm, h.horizon.symm, h.entry.symm⟩

theorem Agrees.live? (h : Agrees scope r r') : r.live? scope = r'.live? scope := by
  simp only [Registry.live?, h.entry, h.now]

theorem Agrees.canLoad (h : Agrees scope r r') : r.CanLoad ↔ r'.CanLoad := by
  rw [canLoad_iff, canLoad_iff, h.source, h.ttl, h.now, h.horizon]

theorem Agrees.held (h : Agrees scope r r') : r.held scope = r'.held scope := by
  rw [Registry.held, Registry.held, h.source]

/-- Fields of a scope have one outcome in both registries, found in the same way. -/
theorem Agrees.fields_cases (h : Agrees scope r r') :
    ∃ outcome,
      (r.fields scope = (outcome, r) ∧ r'.fields scope = (outcome, r')) ∨
      (r.fields scope = (outcome, r.more 1) ∧ r'.fields scope = (outcome, r'.more 1)) ∨
      (r.fields scope = (outcome, r.loaded scope) ∧
        r'.fields scope = (outcome, r'.loaded scope)) := by
  have hlive := h.live?
  cases hr : r.live? scope with
  | some ds =>
    exact ⟨_, .inl ⟨fields_of_live hr, fields_of_live (hlive.symm.trans hr)⟩⟩
  | none =>
    have hr' := hlive.symm.trans hr
    by_cases hcan : r.CanLoad
    · refine ⟨_, .inr (.inr ⟨fields_of_canLoad hr hcan, ?_⟩)⟩
      rw [fields_of_canLoad hr' (h.canLoad.1 hcan), h.held]
    · refine ⟨_, .inr (.inl ⟨fields_of_not_canLoad hr hcan, ?_⟩)⟩
      rw [fields_of_not_canLoad hr' (mt h.canLoad.2 hcan), h.source]

theorem Agrees.fields_fst (h : Agrees scope r r') :
    (r.fields scope).1 = (r'.fields scope).1 := by
  obtain ⟨o, ⟨hf, hf'⟩ | ⟨hf, hf'⟩ | ⟨hf, hf'⟩⟩ := h.fields_cases <;> rw [hf, hf']

theorem Agrees.asks (h : Agrees scope r r') :
    (r.fields scope).2.loads - r.loads = (r'.fields scope).2.loads - r'.loads := by
  obtain ⟨o, ⟨hf, hf'⟩ | ⟨hf, hf'⟩ | ⟨hf, hf'⟩⟩ := h.fields_cases <;>
    simp only [hf, hf', Nat.sub_self, loads_more, loaded, Nat.add_sub_cancel_left]

theorem agrees_more (scope : String) (r : Registry) (n : Nat) : Agrees scope r (r.more n) :=
  ⟨rfl, rfl, rfl, rfl, rfl⟩

theorem Agrees.loaded (h : Agrees scope r r') :
    Agrees scope (r.loaded scope) (r'.loaded scope) :=
  ⟨h.source, h.ttl, h.now, h.horizon, by
    simp only [getElem?_cache_loaded, if_true, h.held, h.now, h.ttl]⟩

theorem agrees_loaded_of_ne (r : Registry) (hs : scope' ≠ scope) :
    Agrees scope r (r.loaded scope') :=
  ⟨rfl, rfl, rfl, rfl, by rw [getElem?_cache_loaded, if_neg hs]⟩

theorem Agrees.fields_snd (h : Agrees scope r r') :
    Agrees scope (r.fields scope).2 (r'.fields scope).2 := by
  obtain ⟨o, ⟨hf, hf'⟩ | ⟨hf, hf'⟩ | ⟨hf, hf'⟩⟩ := h.fields_cases <;> rw [hf, hf']
  · exact h
  · exact (agrees_more scope r 1).symm.trans (h.trans (agrees_more scope r' 1))
  · exact h.loaded

/-- Fields of one scope leave all that the others depend on. -/
theorem agrees_fields_of_ne (r : Registry) (hs : scope' ≠ scope) :
    Agrees scope r (r.fields scope').2 := by
  obtain ⟨e, -, -, hf⟩ | ⟨-, hf⟩ | ⟨-, hf⟩ := r.fields_cases scope' <;> rw [hf]
  · exact .refl scope r
  · exact agrees_more scope r 1
  · exact r.agrees_loaded_of_ne hs

/-- **Registries that agree on a scope do so after any step.** -/
theorem Agrees.step (h : Agrees scope r r') (s : Step) :
    Agrees scope (r.step s).2 (r'.step s).2 := by
  cases s with
  | query scope' q =>
    rw [step_query, step_query]
    by_cases hs : scope' = scope
    · subst hs
      exact h.fields_snd
    · exact (r.agrees_fields_of_ne hs).symm.trans (h.trans (r'.agrees_fields_of_ne hs))
  | advance time =>
    have hnow : (r.after? time).getD r.now = (r'.after? time).getD r'.now := by
      rw [after?, after?, h.now, h.horizon]
    exact ⟨h.source, h.ttl, hnow, h.horizon, h.entry⟩
  | replace ds =>
    have hsource := congrArg (fun src => { src with definitions := ds }) h.source
    exact ⟨hsource, h.ttl, h.now, h.horizon, h.entry⟩
  | fail e =>
    have hsource := congrArg (fun src => { src with failure := some e }) h.source
    exact ⟨hsource, h.ttl, h.now, h.horizon, h.entry⟩
  | recover =>
    have hsource := congrArg (fun src => { src with failure := none }) h.source
    exact ⟨hsource, h.ttl, h.now, h.horizon, h.entry⟩
  | clear => exact ⟨h.source, h.ttl, h.now, h.horizon, rfl⟩

/-! ## Runs without the queries about other scopes -/

/-- The second run is the first without some queries, none of them about the scope. -/
inductive Thinned (scope : String) : List Step → List Step → Prop
  | nil : Thinned scope [] []
  | keep (s : Step) {ss ts : List Step} : Thinned scope ss ts → Thinned scope (s :: ss) (s :: ts)
  | drop {scope' : String} (hs : scope' ≠ scope) (q : Query) {ss ts : List Step} :
      Thinned scope ss ts → Thinned scope (.query scope' q :: ss) ts

end Registry

/-- A step is a query about the scope. -/
def Step.isAbout (scope : String) : Step → Bool
  | .query scope' _ => scope' = scope
  | _ => false

theorem Step.isAbout_eq_true {scope : String} {s : Step} (h : s.isAbout scope = true) :
    ∃ q, s = .query scope q := by
  cases s with
  | query scope' q =>
    obtain rfl : scope' = scope := by simpa [isAbout] using h
    exact ⟨q, rfl⟩
  | _ => cases h

namespace Registry

variable {r r' : Registry} {scope : String}

/-- The queries of a run about a scope, each with its answer and how often it asks the source. -/
def observed (scope : String) (r : Registry) (ss : List Step) :
    List (Step × Option (Except RegistryError Answer) × Nat) :=
  (ss.zip (r.trace ss)).filter fun p => p.1.isAbout scope

theorem observed_cons_of_isAbout {s : Step} (hs : s.isAbout scope = true) (ss : List Step) :
    observed scope r (s :: ss) =
      (s, (r.step s).1, (r.step s).2.loads - r.loads) :: observed scope (r.step s).2 ss :=
  List.filter_cons_of_pos hs

theorem observed_cons_of_not {s : Step} (hs : ¬ s.isAbout scope = true) (ss : List Step) :
    observed scope r (s :: ss) = observed scope (r.step s).2 ss :=
  List.filter_cons_of_neg hs

/-- One query is seen alike in registries that agree on its scope. -/
theorem Agrees.seen (h : Agrees scope r r') (q : Query) :
    (r.step (.query scope q)).1 = (r'.step (.query scope q)).1 ∧
    (r.step (.query scope q)).2.loads - r.loads =
      (r'.step (.query scope q)).2.loads - r'.loads := by
  rw [step_query, step_query, h.fields_fst]
  exact ⟨rfl, h.asks⟩

theorem Agrees.observed_eq (h : Agrees scope r r') {ss ts : List Step}
    (hts : Thinned scope ss ts) : observed scope r ss = observed scope r' ts := by
  induction hts generalizing r r' with
  | nil => rfl
  | keep s _ ih =>
    by_cases hs : s.isAbout scope = true
    · rw [observed_cons_of_isAbout hs, observed_cons_of_isAbout hs, ih (h.step s)]
      obtain ⟨q, rfl⟩ := Step.isAbout_eq_true hs
      rw [(h.seen q).1, (h.seen q).2]
    · rw [observed_cons_of_not hs, observed_cons_of_not hs, ih (h.step s)]
  | drop hs q _ ih =>
    rw [observed_cons_of_not (by simpa [Step.isAbout] using hs)]
    exact ih ((agrees_fields_of_ne _ hs).symm.trans h)

/-- **Scopes do not interfere.** Without any of its queries about other scopes, a run makes the same
queries about the scope, with the same answers, and the same of them ask the source. -/
theorem observed_thinned (r : Registry) {ss ts : List Step} (h : Thinned scope ss ts) :
    observed scope r ss = observed scope r ts :=
  (Agrees.refl scope r).observed_eq h

/-- The cows alone, asked about once more. -/
def cowSteps : List Step :=
  [.advance 5, .query "cow" .groups, .replace [], .fail (.unavailable "down"), .advance 59,
    .query "cow" (.field "name")]

/-- The stall is loaded before the cows are, and asked about again after the source is lost. -/
theorem herdSteps_observed_thinned :
    Thinned "cow" (herdSteps ++ [.query "cow" (.field "name")]) cowSteps ∧
    observed "cow" herdRegistry (herdSteps ++ [.query "cow" (.field "name")]) =
      observed "cow" herdRegistry cowSteps := by
  have h : Thinned "cow" (herdSteps ++ [.query "cow" (.field "name")]) cowSteps :=
    .drop (by decide) .fields <| .keep _ <| .keep _ <| .keep _ <| .keep _ <| .keep _ <|
      .drop (by decide) .fields <| .keep _ .nil
  exact ⟨h, observed_thinned herdRegistry h⟩

end Registry

end Eligibility
