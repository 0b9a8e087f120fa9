import Eligibility.Text.Cut

/-!
# Cuts

What it says of a text to be cut at a separator.

* **`cut?_spec`**: the parts stand around the first separator;
* `cut?_isSome`: a text is cut when it has the separator.
-/

namespace Eligibility

variable {sep : Char}

theorem cutChars?_spec {cs a b : List Char} (h : Text.cutChars? sep cs = some (a, b)) :
    cs = a ++ sep :: b ∧ sep ∉ a := by
  induction cs generalizing a with
  | nil => cases h
  | cons c cs ih =>
    rw [Text.cutChars?] at h
    split at h
    · rename_i hc
      cases h
      exact ⟨by rw [hc]; rfl, List.not_mem_nil⟩
    · rename_i hc
      obtain ⟨⟨a', b'⟩, hp, hab⟩ := Option.map_eq_some_iff.1 h
      cases hab
      obtain ⟨heq, hnot⟩ := ih hp
      exact ⟨by rw [heq]; rfl, List.not_mem_cons_of_ne_of_not_mem (Ne.symm hc) hnot⟩

/-- A text is cut behind a part without the separator. -/
theorem cutChars?_append {a b : List Char} (h : sep ∉ a) :
    Text.cutChars? sep (a ++ sep :: b) = some (a, b) := by
  induction a with
  | nil => exact if_pos rfl
  | cons c a ih =>
    rw [List.mem_cons, not_or] at h
    rw [List.cons_append, Text.cutChars?, if_neg (Ne.symm h.1), ih h.2]
    rfl

/-- The parts of a text stand around its first separator. -/
theorem cut?_spec {s a b : String} (h : Text.cut? sep s = some (a, b)) :
    s.toList = a.toList ++ sep :: b.toList ∧ sep ∉ a.toList := by
  obtain ⟨⟨cs, ds⟩, hp, hab⟩ := Option.map_eq_some_iff.1 h
  cases hab
  rw [String.toList_ofList, String.toList_ofList]
  exact cutChars?_spec hp

theorem cutChars?_isSome {cs : List Char} :
    (Text.cutChars? sep cs).isSome = true ↔ sep ∈ cs := by
  induction cs with
  | nil => exact ⟨nofun, nofun⟩
  | cons c cs ih =>
    rw [Text.cutChars?, List.mem_cons]
    split
    · rename_i hc
      exact ⟨fun _ => .inl hc.symm, fun _ => rfl⟩
    · rename_i hc
      rw [Option.isSome_map, ih]
      exact ⟨.inr, fun h => h.resolve_left (Ne.symm hc)⟩

theorem cut?_isSome {s : String} : (Text.cut? sep s).isSome = true ↔ sep ∈ s.toList := by
  rw [Text.cut?, Option.isSome_map, cutChars?_isSome]

end Eligibility
