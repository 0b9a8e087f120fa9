import Eligibility.Field.Registry

/-!
# The order of fields

* `precedes_trans`, `precedes_total`: fields are ordered by category and display order;
* `StablySorted`, **`stablySorted_sortFields`**: sorting loses nothing and keeps the places of
  fields that agree in both.
-/

namespace Eligibility

namespace FieldDefinition

variable {a b c : FieldDefinition}

theorem precedes_iff :
    a.precedes b = true ↔
      a.category < b.category ∨ a.category = b.category ∧ a.displayOrder ≤ b.displayOrder := by
  simp [precedes]

theorem precedes_trans (hab : a.precedes b = true) (hbc : b.precedes c = true) :
    a.precedes c = true := by
  rw [precedes_iff] at *
  rcases hab with hab | ⟨hab, hab'⟩ <;> rcases hbc with hbc | ⟨hbc, hbc'⟩
  · exact .inl (String.lt_trans hab hbc)
  · exact .inl (hbc ▸ hab)
  · exact .inl (hab ▸ hbc)
  · exact .inr ⟨hab.trans hbc, Int32.le_trans hab' hbc'⟩

theorem precedes_total (a b : FieldDefinition) : (a.precedes b || b.precedes a) = true := by
  rw [Bool.or_eq_true, precedes_iff, precedes_iff]
  have hc : a.category < b.category ∨ a.category = b.category ∨ b.category < a.category := by
    grind
  rcases hc with hlt | heq | hgt
  · exact .inl (.inl hlt)
  · exact (Int32.le_total a.displayOrder b.displayOrder).imp
      (fun h => .inr ⟨heq, h⟩) fun h => .inr ⟨heq.symm, h⟩
  · exact .inr (.inl hgt)

/-- The fields that stand at one place of the order. -/
def standsAt (c : String) (n : Int32) (d : FieldDefinition) : Bool :=
  d.category = c && d.displayOrder = n

theorem standsAt_iff {c : String} {n : Int32} :
    a.standsAt c n = true ↔ a.category = c ∧ a.displayOrder = n := by
  simp [standsAt]

theorem precedes_of_standsAt {c : String} {n : Int32} (ha : a.standsAt c n = true)
    (hb : b.standsAt c n = true) : a.precedes b = true := by
  rw [standsAt_iff] at ha hb
  exact precedes_iff.2 (.inr ⟨ha.1.trans hb.1.symm, by rw [ha.2, hb.2]; exact Int32.le_refl n⟩)

end FieldDefinition

open FieldDefinition

/-- A list is a stable sort of another by category and display order. -/
structure StablySorted (ds sorted : List FieldDefinition) : Prop where
  perm : sorted.Perm ds
  ordered : sorted.Pairwise fun a b =>
    a.category < b.category ∨ a.category = b.category ∧ a.displayOrder ≤ b.displayOrder
  /-- Fields that stand at one place of the order are listed as they were. -/
  stable (c : String) (n : Int32) : sorted.filter (standsAt c n) = ds.filter (standsAt c n)

theorem pairwise_filter_standsAt (ds : List FieldDefinition) (c : String) (n : Int32) :
    (ds.filter (standsAt c n)).Pairwise fun a b => a.precedes b = true :=
  List.pairwise_filter.2 (List.pairwise_of_forall fun _ _ => precedes_of_standsAt)

theorem sortFields_perm (ds : List FieldDefinition) : (sortFields ds).Perm ds :=
  List.mergeSort_perm ds _

theorem pairwise_sortFields (ds : List FieldDefinition) :
    (sortFields ds).Pairwise fun a b => a.precedes b = true :=
  @List.pairwise_mergeSort _ precedes (fun _ _ _ => precedes_trans) precedes_total ds

/-- What is in order already is found in the sort as it stood. -/
theorem sublist_sortFields {ds part : List FieldDefinition}
    (hs : part.Pairwise fun a b => a.precedes b = true) (h : part.Sublist ds) :
    part.Sublist (sortFields ds) :=
  @List.sublist_mergeSort _ precedes _ (fun _ _ _ => precedes_trans) precedes_total _ hs h

theorem filter_standsAt_sortFields (ds : List FieldDefinition) (c : String) (n : Int32) :
    (sortFields ds).filter (standsAt c n) = ds.filter (standsAt c n) := by
  have hsub : (ds.filter (standsAt c n)).Sublist (sortFields ds) :=
    sublist_sortFields (pairwise_filter_standsAt ds c n) List.filter_sublist
  have hf : (ds.filter (standsAt c n)).Sublist ((sortFields ds).filter (standsAt c n)) := by
    simpa only [List.filter_filter, Bool.and_self] using hsub.filter (standsAt c n)
  exact (hf.eq_of_length ((sortFields_perm ds).filter _).length_eq.symm).symm

/-- **Fields are sorted stably.** -/
theorem stablySorted_sortFields (ds : List FieldDefinition) : StablySorted ds (sortFields ds) where
  perm := sortFields_perm ds
  ordered := (pairwise_sortFields ds).imp precedes_iff.1
  stable := filter_standsAt_sortFields ds

end Eligibility
