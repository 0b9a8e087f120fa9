import Eligibility.Proofs.Distinct
import Eligibility.Proofs.Registry.History
import Eligibility.Proofs.Wire.ByteOrder

/-!
# Fields by category

The groups of a scope part its fields: the sort has put the fields of a category next to each
other, and so the groups joined are the fields again.

* `filter_append_filter`, **`flatMap_filter_category`**: sorted fields, category by category;
* `enter`, **`foldl_enter`**: the groups come from one pass over the fields;
* **`Grouped`**, `grouped_groupFields`: how groups part the fields that were loaded;
* **`Registry.groups_partition`**.
-/

namespace Eligibility

open FieldDefinition

/-! ## Sorted fields -/

section Sorted

variable {ds loaded : List FieldDefinition} {c : String} {cs : List String}

theorem filter_append_filter (hds : ds.Pairwise fun a b => a.category ≤ b.category)
    (hc : ∀ d ∈ ds, c ≤ d.category) :
    ds.filter (·.category = c) ++ ds.filter (·.category ≠ c) = ds := by
  induction ds with
  | nil => rfl
  | cons d ds ih =>
    obtain ⟨hd, hds⟩ := List.pairwise_cons.1 hds
    obtain ⟨hcd, hc⟩ := List.forall_mem_cons.1 hc
    by_cases heq : d.category = c
    · rw [List.filter_cons_of_pos (by simpa using heq),
        List.filter_cons_of_neg (by simpa using heq), List.cons_append, ih hds hc]
    · have hne : ∀ e ∈ d :: ds, e.category ≠ c := by
        refine List.forall_mem_cons.2 ⟨heq, fun e he => ?_⟩
        have hle := hd e he
        grind
      rw [List.filter_eq_nil_iff.2 (by simpa using hne), List.filter_eq_self.2 (by simpa using hne)]
      rfl

/-- **Sorted fields are the fields of their categories, one category after the other.** -/
theorem flatMap_filter_category (hcs : cs.Pairwise (· < ·))
    (hds : ds.Pairwise fun a b => a.category ≤ b.category) (hmem : ∀ d ∈ ds, d.category ∈ cs) :
    cs.flatMap (fun c => ds.filter (·.category = c)) = ds := by
  induction cs generalizing ds with
  | nil => exact (List.eq_nil_iff_forall_not_mem.2 fun d hd => nomatch hmem d hd).symm
  | cons c cs ih =>
    obtain ⟨hc, hcs⟩ := List.pairwise_cons.1 hcs
    have hleast : ∀ d ∈ ds, c ≤ d.category := by
      intro d hd
      rcases List.mem_cons.1 (hmem d hd) with heq | hd
      · exact heq ▸ String.le_refl _
      · exact (hc _ hd).le
    have hrest : ∀ d ∈ ds.filter (·.category ≠ c), d.category ∈ cs := by
      intro d hd
      rw [List.mem_filter, decide_eq_true_eq] at hd
      exact (List.mem_cons.1 (hmem d hd.1)).resolve_left hd.2
    have hother : ∀ c' ∈ cs, ds.filter (·.category = c') =
        (ds.filter (·.category ≠ c)).filter (·.category = c') := by
      intro c' hc'
      have hne : c' ≠ c := fun e => String.lt_irrefl _ (e ▸ hc c' hc')
      rw [List.filter_filter]
      refine List.filter_congr fun d _ => ?_
      by_cases hd : d.category = c' <;> simp [hd, hne]
    rw [List.flatMap_cons, List.flatMap_congr hother, ih hcs (hds.filter _) hrest,
      filter_append_filter hds hleast]

end Sorted

/-! ## One pass -/

/-- A field enters the group of its category, or a new one at the end. -/
def enter (d : FieldDefinition) :
    List (String × List FieldDefinition) → List (String × List FieldDefinition)
  | [] => [(d.category, [d])]
  | g :: gs => if g.1 = d.category then (g.1, g.2 ++ [d]) :: gs else g :: enter d gs

theorem enter_map {cs : List String} (hcs : cs.Nodup) (f : String → List FieldDefinition)
    (d : FieldDefinition) :
    enter d (cs.map fun c => (c, f c)) =
      (cs.map fun c => (c, if c = d.category then f c ++ [d] else f c)) ++
        if d.category ∈ cs then [] else [(d.category, [d])] := by
  induction cs with
  | nil => rfl
  | cons c cs ih =>
    obtain ⟨hc, hcs⟩ := List.nodup_cons.1 hcs
    rw [List.map_cons, enter, List.map_cons]
    by_cases hd : c = d.category
    · have hkeep : (cs.map fun c => (c, if c = d.category then f c ++ [d] else f c)) =
          cs.map fun c => (c, f c) := by
        refine List.map_congr_left fun c' hc' => ?_
        have hne : c' ≠ d.category := fun e => hc (by rwa [hd, ← e])
        rw [if_neg hne]
      simp [hd, hkeep]
    · simp [hd, ih hcs, Ne.symm hd]

/-- **The groups come from one pass over the fields.** -/
theorem foldl_enter (ds : List FieldDefinition) :
    ds.foldl (fun gs d => enter d gs) [] = groupFields ds := by
  induction ds using List.reverseRecOn with
  | nil => rfl
  | append_singleton ds d ih =>
    rw [List.foldl_concat, ih, groupFields, enter_map (nodup_distinct _), groupFields,
      List.map_append, List.map_singleton, distinct_concat]
    by_cases hd : d.category ∈ ds.map (·.category)
    · rw [if_pos (mem_distinct.2 hd), if_pos hd, List.append_nil]
      refine List.map_congr_left fun c _ => ?_
      by_cases hc : c = d.category
      · simp [hc]
      · simp [hc, Ne.symm hc]
    · have hnew : ds.filter (·.category = d.category) = [] := by
        rw [List.filter_eq_nil_iff]
        intro e he
        have hne : e.category ≠ d.category := fun heq => hd (heq ▸ List.mem_map_of_mem he)
        simpa using hne
      rw [if_neg (mt mem_distinct.1 hd), if_neg hd, List.map_append]
      refine congrArg₂ (· ++ ·) (List.map_congr_left fun c hc => ?_) (by simp [hnew])
      have hne : c ≠ d.category := fun heq => hd (heq ▸ mem_distinct.1 hc)
      simp [hne, Ne.symm hne]

/-! ## Groups -/

/-- Groups part the fields `ds`, which are those that were loaded. -/
structure Grouped (loaded ds : List FieldDefinition) (gs : List (String × List FieldDefinition)) :
    Prop where
  nonempty : ∀ g ∈ gs, g.2 ≠ []
  /-- No category has two groups, and the names of the categories grow as bytes. -/
  ordered : gs.Pairwise fun g h => utf8 g.1 < utf8 h.1
  joined : gs.flatMap (·.2) = ds
  perm : ds.Perm loaded
  /-- A group has the fields of its category and no others. -/
  members : ∀ g ∈ gs, g.2.Perm (loaded.filter (·.category = g.1))
  sorted : ∀ g ∈ gs, g.2.Pairwise fun a b => a.displayOrder ≤ b.displayOrder
  /-- Fields of one display order are listed as they were loaded. -/
  stable : ∀ g ∈ gs, ∀ n : Int32, g.2.filter (·.displayOrder = n) =
    loaded.filter fun d => d.category = g.1 && d.displayOrder = n

/-- The groups of sorted fields part them. -/
theorem grouped_groupFields {loaded ds : List FieldDefinition} (h : StablySorted loaded ds) :
    Grouped loaded ds (groupFields ds) := by
  have hds : ds.Pairwise fun a b => a.category ≤ b.category := by
    refine h.ordered.imp fun hab => ?_
    rcases hab with hlt | ⟨heq, -⟩
    · exact hlt.le
    · exact heq ▸ String.le_refl _
  have hcategories : (distinct (ds.map (·.category))).Pairwise (· < ·) := by
    have hle : (ds.map (·.category)).Pairwise (· ≤ ·) := List.pairwise_map.2 hds
    refine ((hle.sublist (distinct_sublist _)).and (nodup_distinct _)).imp fun hab => ?_
    grind
  have hgroup : ∀ g ∈ groupFields ds,
      g.2 = ds.filter (·.category = g.1) ∧ ∃ d ∈ ds, d.category = g.1 := by
    intro g hg
    obtain ⟨c, hc, rfl⟩ := List.mem_map.1 hg
    exact ⟨rfl, List.mem_map.1 (mem_distinct.1 hc)⟩
  refine ⟨fun g hg => ?_, ?_, ?_, h.perm, fun g hg => ?_, fun g hg => ?_, fun g hg n => ?_⟩
  · obtain ⟨heq, d, hd, hdg⟩ := hgroup g hg
    rw [heq]
    exact List.ne_nil_of_mem (List.mem_filter.2 ⟨hd, by simpa using hdg⟩)
  · exact List.pairwise_map.2 (hcategories.imp utf8_lt_iff.2)
  · rw [groupFields, List.flatMap_map]
    exact flatMap_filter_category hcategories hds fun d hd =>
      mem_distinct.2 (List.mem_map_of_mem hd)
  · rw [(hgroup g hg).1]
    exact h.perm.filter _
  · rw [(hgroup g hg).1, List.pairwise_filter]
    refine h.ordered.imp fun hab ha hb => ?_
    rw [decide_eq_true_eq] at ha hb
    rcases hab with hlt | ⟨-, hle⟩
    · rw [ha, hb] at hlt
      exact absurd hlt (String.lt_irrefl _)
    · exact hle
  · have hplace : (fun d : FieldDefinition => decide (d.displayOrder = n) &&
        decide (d.category = g.1)) = standsAt g.1 n := funext fun d => Bool.and_comm _ _
    rw [(hgroup g hg).1, List.filter_filter, hplace, h.stable]
    rfl

namespace Registry

variable {r : Registry} {scope : String}

theorem cache_of_fields {ds : List FieldDefinition} (h : (r.fields scope).1 = some (.ok ds)) :
    ∃ e, (r.fields scope).2.cache[scope]? = some e ∧ e.fields = ds := by
  obtain ⟨e, he, -, hf⟩ | ⟨-, hf⟩ | ⟨-, hf⟩ := r.fields_cases scope
  · rw [hf] at h ⊢
    exact ⟨e, he, Except.ok.inj (Option.some.inj h)⟩
  · rw [hf] at h
    cases hfail : r.source.failure <;> rw [hfail] at h <;> cases h
  · rw [hf] at h ⊢
    exact ⟨⟨r.held scope, r.now + r.ttl⟩, by simp [getElem?_cache_loaded],
      Except.ok.inj (Option.some.inj h)⟩

/-- **Groups part the fields of a scope** by category, in one pass over the fields that the source
held at the latest load of the scope. -/
theorem groups_partition {a : Answer} (hr : r.cache = ∅) (ss : List Step)
    (h : ((r.run ss).step (.query scope .groups)).1 = some (.ok a)) :
    ∃ before q after ds gs, ss ++ [.query scope .groups] = before ++ .query scope q :: after ∧
      r.LatestLoad scope before q after ∧
      ((r.run ss).step (.query scope .fields)).1 = some (.ok (.fields ds)) ∧
      a = .groups gs ∧ gs = ds.foldl (fun gs d => enter d gs) [] ∧
      Grouped ((r.run before).source.definitions.filter (·.scope = scope)) ds gs := by
  obtain ⟨ds, hds, rfl⟩ : ∃ ds, ((r.run ss).fields scope).1 = some (.ok ds) ∧
      .groups (groupFields ds) = a := by
    rw [step_query] at h
    rcases hf : ((r.run ss).fields scope).1 with _ | err | ds
    · rw [hf] at h
      cases h
    · rw [hf] at h
      cases h
    · rw [hf] at h
      exact ⟨ds, rfl, Except.ok.inj (Option.some.inj h)⟩
  obtain ⟨e, he, rfl⟩ := cache_of_fields hds
  have hrun : (r.run (ss ++ [.query scope .groups])).cache[scope]? = some e := by
    rwa [run_concat, step_query]
  obtain ⟨before, q, after, hss, hlatest, rfl⟩ := latestLoad_run (by simp [hr]) _ hrun
  refine ⟨before, q, after, _, _, hss, hlatest, ?_, rfl, (foldl_enter _).symm,
    grouped_groupFields (stablySorted_sortFields _)⟩
  rw [step_query, hds]
  rfl

/-- A field of cows. -/
def cowField (id : String) (fieldType : FieldType) (category : String) (displayOrder : Int32) :
    FieldDefinition :=
  { FieldDefinition.plain id fieldType with scope := "cow", category, displayOrder }

/-- One id twice, a field without a category, and an order below zero. -/
def cowFields : List FieldDefinition :=
  [cowField "weight" .number "size" 2, cowField "name" .text "" 100,
    cowField "height" .number "size" (-1), cowField "weight" .text "size" 2]

def cowRegistry : Registry := { source := { definitions := cowFields } }

def cowGroups : List (String × List FieldDefinition) :=
  [("", [cowField "name" .text "" 100]),
    ("size", [cowField "height" .number "size" (-1), cowField "weight" .number "size" 2,
      cowField "weight" .text "size" 2])]

/-- The fields are loaded at once and then lost. -/
def lostSteps : List Step := [.query "cow" (.isField "name"), .replace []]

theorem lostSteps_groups_partition :
    ((cowRegistry.run lostSteps).step (.query "cow" .groups)).1 =
        some (.ok (.groups cowGroups)) ∧
      ∃ before q after ds gs,
        lostSteps ++ [.query "cow" .groups] = before ++ .query "cow" q :: after ∧
        cowRegistry.LatestLoad "cow" before q after ∧
        ((cowRegistry.run lostSteps).step (.query "cow" .fields)).1 = some (.ok (.fields ds)) ∧
        .groups cowGroups = Answer.groups gs ∧ gs = ds.foldl (fun gs d => enter d gs) [] ∧
        Grouped ((cowRegistry.run before).source.definitions.filter (·.scope = "cow")) ds gs := by
  have hgroups : groupFields (cowRegistry.held "cow") = cowGroups := by
    have hlt : "" < "size" := by decide
    have hgt : ¬ "size" < "" := by decide
    simp [held, cowRegistry, cowFields, cowField, cowGroups, plain, sortFields, List.mergeSort,
      precedes, hlt, hgt, groupFields, distinct]
  have hanswer : ((cowRegistry.run lostSteps).step (.query "cow" .groups)).1 =
      some (.ok (.groups cowGroups)) := by
    rw [← hgroups]
    rfl
  exact ⟨hanswer, groups_partition (r := cowRegistry) rfl lostSteps hanswer⟩

end Registry

end Eligibility
