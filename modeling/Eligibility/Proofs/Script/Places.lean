import Mathlib.Data.List.Forall2
import Eligibility.Proofs.Script.Shapes
import Eligibility.Proofs.Token.Layout

/-!
# The places of leaves and rules

* `Token.Marks`: the token that a leaf starts with;
* **`Derives.marked`**: the leaves of a condition stand at tokens in the order of the text;
* `lastLine_spec`: the line on which a block ends;
* `Rule.Covers`, `readBlock_covers`: the tokens of a rule;
* `Splits.covers`, **`Splits.ordered`**: the rules of a script, one after the other;
* **`Report.places_ofText`**.
-/

namespace Eligibility

open Reader

/-! ## Leaves -/

/-- A leaf starts with the token: the field, or the keyword of the function. -/
def Token.Marks (t : Token) : Leaf → Prop
  | .comparison c => t.kind = .identifier ∧ t.text = c.field ∧ t.position = c.position
  | .call f => t.kind = .function f.function ∧ t.position = f.position

namespace Token.Marks

variable {t : Token} {l : Leaf}

theorem position (h : t.Marks l) : l.position = t.position := by
  cases l with
  | comparison c => exact h.2.2.symm
  | call f => exact h.2.symm

theorem kind_ne (h : t.Marks l) : t.kind ≠ .newline := by
  cases l with
  | comparison c => exact h.1 ▸ nofun
  | call f => exact h.1 ▸ nofun

end Token.Marks

theorem Condition.head?_leaves (c : Condition) :
    (c.leaves.map Leaf.position).head? = some c.position := by
  induction c with
  | leaf l => rfl
  | and a b iha ihb | or a b iha ihb =>
    rw [leaves, List.map_append, List.head?_append, iha]
    rfl
  | not c ih | group c ih => exact ih

/-- The leaves are marked by some of the tokens, in their order. -/
def Marked (us : List Token) (ls : List Leaf) : Prop :=
  ∃ ts, ts.Sublist us ∧ List.Forall₂ Token.Marks ts ls

section Marked

variable {us vs : List Token} {ls ks : List Leaf}

theorem places_marks {ts : List Token} (h : List.Forall₂ Token.Marks ts ls) :
    ls.map Leaf.position = ts.map Token.position ∧ ∀ l ∈ ls, ∃ t ∈ ts, t.Marks l := by
  induction h with
  | nil => exact ⟨rfl, List.forall_mem_nil _⟩
  | @cons t l ts ls ht _ ih =>
    refine ⟨by rw [List.map_cons, List.map_cons, ht.position, ih.1], ?_⟩
    refine List.forall_mem_cons.2 ⟨⟨t, List.mem_cons_self, ht⟩, fun l hl => ?_⟩
    obtain ⟨u, hu, hm⟩ := ih.2 l hl
    exact ⟨u, List.mem_cons_of_mem _ hu, hm⟩

theorem Marked.mono (h : Marked us ls) (hs : us.Sublist vs) : Marked vs ls := by
  obtain ⟨ts, hts, hall⟩ := h
  exact ⟨ts, hts.trans hs, hall⟩

theorem Marked.append (h : Marked us ls) (hk : Marked vs ks) : Marked (us ++ vs) (ls ++ ks) := by
  obtain ⟨ts, hts, hall⟩ := h
  obtain ⟨ts', hts', hall'⟩ := hk
  exact ⟨ts ++ ts', hts.append hts', List.rel_append hall hall'⟩

theorem Sees.marked {nested : Bool} {P : Token → Prop} (h : Sees nested P us) {l : Leaf}
    (hP : ∀ t, P t → t.Marks l) (vs : List Token) : Marked (us ++ vs) [l] := by
  obtain ⟨bs, t, rfl, -, -, ht⟩ := h
  refine ⟨[t], ?_, .cons (hP t ht) .nil⟩
  rw [List.append_assoc]
  exact (List.sublist_append_left [t] vs).trans (List.sublist_append_right bs _)

/-- **The leaves of a condition stand at tokens of their own, in the order of the text.** -/
theorem Derives.marked {level : Level} {nested : Bool} {c : Condition}
    (h : Derives level nested us c) : Marked us c.leaves := by
  induction h with
  | comparison hf | excluded hf =>
    refine hf.marked (fun t ht => ?_) _
    exact ⟨ht.1.1, ht.1.2, ht.2⟩
  | call hf hc =>
    refine hf.marked (fun t ht => ?_) _
    cases hc <;> exact ht
  | group ho _ hk ih =>
    exact ih.mono ((List.sublist_append_left _ _).trans (List.sublist_append_right _ _))
  | plain _ ih | operand _ ih | clause _ ih => exact ih
  | not _ _ ih => exact ih.mono (List.sublist_append_right _ _)
  | and _ _ _ _ iha ihb | or _ _ _ _ iha ihb =>
    refine iha.append (ihb.mono ?_)
    exact (List.sublist_append_right _ _).trans (List.sublist_append_right _ _)

end Marked

/-! ## Blocks -/

/-- The tokens stand one after the other. -/
def Ordered (ts : List Token) : Prop := ts.Pairwise fun t u => t.position.Before u.position

section Block

variable {us vs ts rest : List Token} {t u start : Token} {r : Rule}

theorem Position.Before.line_le {p q : Position} (h : p.Before q) : p.line ≤ q.line := by
  unfold Before at h
  omega

/-- No token stands below the last line, and a token stands there. -/
theorem lastLine_spec (h : Ordered ts) (hk : ∃ t ∈ ts, t.kind ≠ .newline) :
    (∃ t ∈ ts, lastLine ts = t.position.line) ∧
      ∀ t ∈ ts, t.kind ≠ .newline → t.position.line ≤ lastLine ts := by
  have hmem (t : Token) : t ∈ ts.filter (·.kind ≠ .newline) ↔ t ∈ ts ∧ t.kind ≠ .newline := by
    rw [List.mem_filter, decide_eq_true_iff]
  have hsorted : Ordered (ts.filter (·.kind ≠ .newline)) := List.Pairwise.filter _ h
  rw [lastLine]
  generalize ts.filter (·.kind ≠ .newline) = us at hmem hsorted ⊢
  obtain rfl | ⟨vs, u, rfl⟩ := List.eq_nil_or_concat us
  · obtain ⟨t, ht⟩ := hk
    exact absurd ((hmem t).2 ht) List.not_mem_nil
  · rw [List.concat_eq_append] at *
    rw [List.getLast?_concat]
    refine ⟨⟨u, ((hmem u).1 (by simp)).1, rfl⟩, fun t ht hkt => ?_⟩
    rcases List.mem_append.1 ((hmem t).2 ⟨ht, hkt⟩) with ht | ht
    · exact ((List.pairwise_append.1 hsorted).2.2 t ht u List.mem_cons_self).line_le
    · rw [List.mem_singleton.1 ht]
      exact Nat.le_refl _

/-- The tokens of a rule: the keyword `RULE` and those up to the end of the block. -/
structure Rule.Covers (r : Rule) (start : Token) (us : List Token) : Prop where
  startLine : r.startLine = start.position.line
  endLine : r.endLine = lastLine (start :: us)
  condition : ∀ c ∈ r.condition, Marked us c.leaves

theorem Rule.condition_of_applyAll {ss : List Setting} {c : Condition}
    (h : (r.applyAll ss).condition = some c) : r.condition = some c ∨ .condition c ∈ ss := by
  unfold Rule.applyAll at h
  induction ss generalizing r with
  | nil => exact .inl h
  | cons s ss ih =>
    rcases ih h with hs | hs
    · cases s with
      | condition d =>
        cases hs
        exact .inr List.mem_cons_self
      | _ => exact .inl hs
    · exact .inr (List.mem_cons_of_mem _ hs)

/-- **A rule covers the tokens of its block.** -/
theorem readBlock_covers (h : of (readBlock start) ts = .ok (r, rest)) :
    ∃ us, ts = us ++ rest ∧ r.Covers start us := by
  obtain ⟨parts, hparts, rfl⟩ := readParts_ok h
  obtain ⟨name, mid, hname, hmid⟩ := bind_ok_iff.1 hparts
  obtain ⟨ss, mid', hss, hpure⟩ := bind_ok_iff.1 hmid
  cases hpure
  obtain ⟨ns, rfl, -, -⟩ := (spec_name.judges ts).sound name mid hname
  obtain ⟨us, rfl, hwrites⟩ := readSettings_writes hss
  refine ⟨ns ++ us, by rw [List.append_assoc], ?_⟩
  rw [← List.append_assoc, blockRule_append]
  refine ⟨rfl, rfl, fun c hc => ?_⟩
  have hset : .condition c ∈ ss := (Rule.condition_of_applyAll hc).resolve_left nofun
  obtain ⟨k, ws, hws, hw⟩ := hwrites _ hset
  obtain ⟨bs, vs, rfl, hd⟩ := hw.condition
  refine hd.marked.mono ((List.sublist_append_right bs vs).trans ?_)
  exact hws.sublist.trans (List.sublist_append_right ns us)

/-- Leaves stand between the first and the last line of their rule, one after the other. -/
theorem Rule.Covers.leaves (h : r.Covers start us) (ho : Ordered (start :: us)) {c : Condition}
    (hc : c ∈ r.condition) :
    (c.leaves.map Leaf.position).Pairwise Position.Before ∧
      ∀ l ∈ c.leaves, (∃ t ∈ us, t.Marks l) ∧
        r.startLine ≤ l.position.line ∧ l.position.line ≤ r.endLine := by
  obtain ⟨ts, hts, hmarks⟩ := h.condition c hc
  obtain ⟨hstart, hus⟩ := List.pairwise_cons.1 ho
  obtain ⟨hplaces, hmark⟩ := places_marks hmarks
  refine ⟨?_, fun l hl => ?_⟩
  · rw [hplaces, List.pairwise_map]
    exact hus.sublist hts
  · obtain ⟨t, ht, hm⟩ := hmark l hl
    have hmem : t ∈ us := hts.subset ht
    rw [hm.position, h.startLine, h.endLine]
    exact ⟨⟨t, hmem, hm⟩, (hstart t hmem).line_le,
      (lastLine_spec ho ⟨t, List.mem_cons_of_mem _ hmem, hm.kind_ne⟩).2 t
        (List.mem_cons_of_mem _ hmem) hm.kind_ne⟩

end Block

/-! ## Scripts -/

section Script

variable {ts : List Token} {items : List Item} {f : Option Failure}

/-- Every rule covers a block of the script. -/
theorem Splits.covers (h : Splits ts items f) :
    ∀ r ∈ items.filterMap Item.rule?, ∃ start us, start :: us <:+: ts ∧ start.kind = .rule ∧
      r.Covers start us := by
  induction h with
  | done | fails => exact List.forall_mem_nil _
  | @stray bs ts t _ _ _ _ _ _ ih =>
    intro r hr
    obtain ⟨start, us, hus, hcovers⟩ := ih r hr
    exact ⟨start, us, hus.trans ⟨bs ++ [t], [], by simp⟩, hcovers⟩
  | @rule bs ts rest t r items f hbs hr hb h ih =>
    obtain ⟨us, rfl, hcovers⟩ := readBlock_covers hb
    refine List.forall_mem_cons.2 ⟨⟨t, us, ⟨bs, rest, by simp⟩, hr, hcovers⟩, fun r hr => ?_⟩
    obtain ⟨start, vs, hvs, hcovers⟩ := ih r hr
    exact ⟨start, vs, hvs.trans ⟨bs ++ t :: us, [], by simp⟩, hcovers⟩

/-- **A rule ends before the next one starts,** or on its first line. -/
theorem Splits.ordered (h : Splits ts items f) (ho : Ordered ts) :
    (items.filterMap Item.rule?).Pairwise fun r s => r.endLine ≤ s.startLine := by
  induction h with
  | done | fails => exact .nil
  | @stray bs ts t _ _ _ _ _ _ ih =>
    exact ih (ho.sublist ((List.sublist_cons_self t ts).trans (List.sublist_append_right bs _)))
  | @rule bs ts rest t r items f hbs hr hb h ih =>
    obtain ⟨us, rfl, hcovers⟩ := readBlock_covers hb
    have hblock : Ordered ((t :: us) ++ rest) := ho.sublist (List.sublist_append_right bs _)
    obtain ⟨hfront, hrest, hapart⟩ := List.pairwise_append.1 hblock
    refine List.pairwise_cons.2 ⟨fun s hs => ?_, ih hrest⟩
    obtain ⟨start, vs, hvs, -, hs⟩ := h.covers s hs
    obtain ⟨⟨u, hu, hline⟩, -⟩ := lastLine_spec hfront ⟨t, List.mem_cons_self, hr ▸ nofun⟩
    rw [hcovers.endLine, hs.startLine, hline]
    exact (hapart u hu start (hvs.subset List.mem_cons_self)).line_le

end Script

/-- **Places are faithful.** Leaves stand in order at their own tokens, within the lines of their
rule, and no rule ends below the line on which the next one starts. -/
theorem Report.places_ofText (text : String) :
    (∀ r ∈ (ofText text).rules, ∀ c ∈ r.condition,
      (c.leaves.map Leaf.position).Pairwise Position.Before ∧
      (c.leaves.map Leaf.position).head? = some c.position ∧
      ∀ l ∈ c.leaves, (∃ t ∈ (tokenize text).tokens, t.Marks l) ∧
        r.startLine ≤ l.position.line ∧ l.position.line ≤ r.endLine) ∧
    (ofText text).rules.Pairwise fun r s => r.endLine ≤ s.startLine := by
  obtain ⟨-, -, hordered⟩ := tokenize_laid text
  have hordered : Ordered (tokenize text).tokens := (List.pairwise_append.1 hordered).1
  rcases rules_cases text with hnone | ⟨items, f, hsplits, hrules⟩
  · rw [hnone]
    exact ⟨List.forall_mem_nil _, .nil⟩
  · rw [hrules]
    refine ⟨fun r hr c hc => ?_, hsplits.ordered hordered⟩
    obtain ⟨start, us, hblock, -, hcovers⟩ := hsplits.covers r hr
    obtain ⟨hpairwise, hleaves⟩ := hcovers.leaves (hordered.sublist hblock.sublist) hc
    refine ⟨hpairwise, c.head?_leaves, fun l hl => ?_⟩
    obtain ⟨⟨t, ht, hm⟩, hlines⟩ := hleaves l hl
    exact ⟨⟨t, hblock.subset (List.mem_cons_of_mem _ ht), hm⟩, hlines⟩

/-- Two rules, the second one on the last line of the first. -/
example : (Report.ofText "RULE 'A'\nWHEN (a = 1\nOR SUM(g) > 2) RULE 'B' WHEN b IS EMPTY").rules.map
    (fun r => (r.startLine, r.endLine, r.condition.map fun c => c.leaves.map Leaf.position)) =
    [(1, 3, some [⟨2, 7⟩, ⟨3, 4⟩]), (3, 3, some [⟨3, 30⟩])] := by
  decide +kernel

end Eligibility
