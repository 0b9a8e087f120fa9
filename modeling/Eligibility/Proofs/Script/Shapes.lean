import Eligibility.Proofs.Plan.Condition
import Eligibility.Proofs.Script.Draft

/-!
# Operands in scripts have the shapes that operators need

* `WritesTest.shaped`, **`Derives.shaped`**: what the grammar writes;
* `readSettings_writes`, `readSettings_forall`: what holds of every clause holds of all that a block
  sets;
* `Rule.Shaped`, **`Report.shaped_of_mem_rules`**.
-/

namespace Eligibility

open Reader

/-! ## Conditions -/

theorem Operator.isSome_test?_single {op : Operator} (h : op.isBinary = true) (v : Value) :
    (op.test? (.single v)).isSome = true := by
  cases op with
  | between | isIn | isEmpty | isNotEmpty => cases h
  | _ => rfl

theorem WritesTest.shaped {nested : Bool} {us : List Token} {op : Operator} {o : Operand}
    (h : WritesTest nested us op o) : (op.test? o).isSome = true := by
  cases h with
  | isEmpty | isNotEmpty | between | isIn => rfl
  | binary hop => exact Operator.isSome_test?_single hop _

theorem Condition.shaped_comparison {c : Comparison} (h : c.test?.isSome = true) :
    (Condition.leaf (.comparison c)).Shaped := by
  intro l hl
  rw [List.mem_singleton.1 hl]
  exact h

/-- **Whatever a script writes has operands of the right shapes.** -/
theorem Derives.shaped {level : Level} {nested : Bool} {us : List Token} {c : Condition}
    (h : Derives level nested us c) : c.Shaped := by
  induction h with
  | comparison hf ht => exact Condition.shaped_comparison ht.shaped
  | excluded hf hk hl => exact Condition.shaped_comparison rfl
  | call hf hc =>
    intro l hl
    rw [List.mem_singleton.1 hl]
    trivial
  | group ho h hk ih => exact ih
  | plain h ih | operand h ih | clause h ih => exact ih
  | not hk h ih => exact ih
  | and ha hk hbs hb iha ihb | or ha hk hbs hb iha ihb =>
    intro l hl
    exact (List.mem_append.1 hl).elim (iha l) (ihb l)

/-! ## Clauses -/

/-- Whatever a block sets is written by a clause among its tokens. -/
theorem readSettings_writes {ts rest : List Token} {ss : List Setting}
    (h : of readSettings ts = .ok (ss, rest)) :
    ∃ us, ts = us ++ rest ∧ ∀ s ∈ ss, ∃ c ws, ws <:+: us ∧ WritesSetting c ws s := by
  rcases clause_cases ts with ⟨-, hok⟩ | ⟨ks, c, mid, rfl, hk⟩
  · obtain ⟨bs, -, hts⟩ := exists_lines ts
    cases hok.symm.trans h
    exact ⟨bs, hts, List.forall_mem_nil _⟩
  · rw [readSettings_of_clause hk] at h
    obtain ⟨s, mid', hs, hmore⟩ := bind_ok_iff.1 h
    obtain ⟨more, rest', hmore, hpure⟩ := bind_ok_iff.1 hmore
    cases hpure
    obtain ⟨us, rfl, hus, -⟩ := ((spec_setting c).judges mid).sound s mid' hs
    have hlt : mid'.length < (ks ++ (us ++ mid')).length := by
      have := hk.length_pos
      rw [List.length_append, List.length_append]
      omega
    obtain ⟨vs, rfl, hall⟩ := readSettings_writes hmore
    refine ⟨ks ++ (us ++ vs), by simp, List.forall_mem_cons.2 ⟨?_, fun s hs => ?_⟩⟩
    · exact ⟨c, us, ⟨ks, vs, by simp⟩, hus⟩
    · obtain ⟨c, ws, hws, hw⟩ := hall s hs
      exact ⟨c, ws, hws.trans ⟨ks ++ us, [], by simp⟩, hw⟩
termination_by ts.length

/-- What holds of every clause by itself holds of all that a block sets. -/
theorem readSettings_forall {P : Setting → Prop} (hP : ∀ c us s, WritesSetting c us s → P s)
    {ts rest : List Token} {ss : List Setting} (h : of readSettings ts = .ok (ss, rest)) :
    ∀ s ∈ ss, P s := by
  obtain ⟨us, -, hall⟩ := readSettings_writes h
  intro s hs
  obtain ⟨c, ws, -, hw⟩ := hall s hs
  exact hP c ws s hw

/-- Only the keyword `WHEN` sets a condition. -/
theorem WritesSetting.condition {k : Clause} {us : List Token} {c : Condition}
    (h : WritesSetting k us (.condition c)) :
    ∃ bs vs, us = bs ++ vs ∧ Derives .disjunction false vs c := by
  have hone {α : Type} {read : Token → Option α} {v : α → Setting} {us : List Token}
      (h : WritesOne read v us (.condition c)) (hv : ∀ a, .condition c ≠ v a) : False := by
    obtain ⟨a, -, ha⟩ := h
    exact hv a ha
  unfold WritesSetting at h
  split at h
  · rename_i hk
    subst hk
    obtain ⟨bs, vs, c', rfl, -, hc, hs⟩ := h
    cases hs
    exact ⟨bs, vs, rfl, hc⟩
  · obtain ⟨ks, ws, -, -, h⟩ := h
    cases k with
    | when => contradiction
    | score =>
      obtain ⟨n, -, hs⟩ := h
      cases hs
    | _ => exact (hone h nofun).elim

/-- A condition that is set has operands of the right shapes. -/
def Setting.Shaped (s : Setting) : Prop := ∀ c, s = .condition c → c.Shaped

theorem WritesSetting.shaped {c : Clause} {us : List Token} {s : Setting}
    (h : WritesSetting c us s) : s.Shaped := by
  rintro d rfl
  obtain ⟨bs, vs, -, hd⟩ := h.condition
  exact hd.shaped

/-! ## Rules -/

/-- The operands of the condition have the shapes that the operators need. -/
def Rule.Shaped (r : Rule) : Prop := ∀ c ∈ r.condition, c.Shaped

theorem Rule.Shaped.applyAll {r : Rule} (hr : r.Shaped) {ss : List Setting}
    (hss : ∀ s ∈ ss, s.Shaped) : (r.applyAll ss).Shaped := by
  unfold Rule.applyAll
  induction ss generalizing r with
  | nil => exact hr
  | cons s ss ih =>
    obtain ⟨hs, hss⟩ := List.forall_mem_cons.1 hss
    rw [List.foldl_cons]
    refine ih ?_ hss
    cases s with
    | condition c =>
      intro d hd
      cases hd
      exact hs c rfl
    | _ => exact hr

theorem readBlock_shaped {start : Token} {ts rest : List Token} {r : Rule}
    (h : of (readBlock start) ts = .ok (r, rest)) : r.Shaped := by
  obtain ⟨parts, hparts, rfl⟩ := readParts_ok h
  obtain ⟨name, mid, -, hmid⟩ := bind_ok_iff.1 hparts
  obtain ⟨ss, mid', hss, hpure⟩ := bind_ok_iff.1 hmid
  cases hpure
  have hnamed : (Rule.named name).Shaped := nofun
  exact hnamed.applyAll (readSettings_forall (fun _ _ _ => WritesSetting.shaped) hss)

/-- **Every rule that is read has operands of the right shapes.** -/
theorem Report.shaped_of_mem_rules {text : String} {r : Rule} (hr : r ∈ (ofText text).rules) :
    r.Shaped :=
  forall_rules (fun _ _ _ _ => readBlock_shaped) text r hr

end Eligibility
