import Eligibility.Proofs.Sql.Text

/-!
# Precedence

A predicate is **layered** when every disjunction inside a conjunction is in parentheses, and so is
everything but an elementary predicate that a negation applies to.

* `IsLiteral`: text whose tokens join nothing;
* `Predicate.clauses`: the disjuncts of a predicate, each with its conjuncts, as formulas;
  `Predicate.formula`: the disjunction of them;
* **`Predicate.reads`**, **`Predicate.read?_text`**: the text of a layered predicate reads as its
  clauses.
-/

namespace Eligibility.Sql

open Item (word symbol number literal)

/-- The text is a literal: its tokens stand for themselves and join nothing. -/
def IsLiteral (s : String) : Prop :=
  ∃ ts ∈ tokens s.toList, ts ≠ [] ∧ ∀ t ∈ ts, t.isPlain = true ∧ (Item.token t).Quiet

instance (s : String) : Decidable (IsLiteral s) := inferInstanceAs (Decidable (∃ ts ∈ _, _))

theorem IsLiteral.isComplete {s : String} (h : IsLiteral s) : IsComplete s := by
  obtain ⟨ts, ht, -, hq⟩ := h
  exact isComplete_of_tokens ht fun t ht => (hq t ht).1

theorem IsLiteral.items {s : String} (h : IsLiteral s) :
    textItems s ≠ [] ∧ ∀ i ∈ textItems s, i.Quiet := by
  obtain ⟨ts, ht, hn, hq⟩ := h
  have hp := all_isPlain_map_token fun t ht => (hq t ht).1
  have hs : Shows s (ts.map .token) := shows_of_tokens ⟨by rw [itemTokens_map_token]; exact ht, hp⟩
  have : textItems s = ts.map .token := by rw [textItems, hs.items?]; rfl
  rw [this]
  refine ⟨by simpa using hn, fun i hi => ?_⟩
  obtain ⟨t, ht, rfl⟩ := List.mem_map.1 hi
  exact (hq t ht).2

/-! ## Items of terms -/

theorem Term.CleanValue.quiet {t : Term} (h : t.CleanValue IsLiteral) :
    t.items ≠ [] ∧ ∀ i ∈ t.items, i.Quiet := by
  have hone {i : Item} (hi : i.Quiet) : [i] ≠ [] ∧ ∀ j ∈ [i], j.Quiet :=
    ⟨List.cons_ne_nil _ _, fun j hj => by rw [List.mem_singleton.1 hj]; exact hi⟩
  cases t with
  | column c =>
    refine hone (quiet_of_dot ?_)
    change '.' ∈ (c.tableAlias ++ "." ++ c.name).toList
    simp
  | name s => exact absurd rfl (h.2 s)
  | int n =>
    refine ⟨?_, intItems_quiet n.toInt⟩
    simp [items, intItems]
  | float x => exact (floatItems_spec x).2
  | quoted s => exact hone ⟨rfl, rfl, rfl⟩
  | verbatim s => exact IsLiteral.items h.1
  | aggregate a rows => exact hone ⟨rfl, rfl, rfl⟩

/-- The items of a term may start an elementary predicate. -/
theorem Term.Clean.items_cons {t : Term} (h : t.Clean IsLiteral) :
    ∃ i is, t.items = i :: is ∧ i.Starts ∧ ∀ j ∈ is, j.Quiet := by
  by_cases hname : ∃ s, t = .name s
  · obtain ⟨s, rfl⟩ := hname
    exact ⟨_, _, rfl, starts_of_identifier h, by simp⟩
  · obtain ⟨hn, hq⟩ := Term.CleanValue.quiet ⟨h, fun s e => hname ⟨s, e⟩⟩
    obtain ⟨i, is, hi⟩ := List.exists_cons_of_ne_nil hn
    rw [hi] at hq ⊢
    exact ⟨i, is, rfl, (hq i List.mem_cons_self).starts,
      fun j hj => hq j (List.mem_cons_of_mem _ hj)⟩

theorem Term.Clean.starts {t : Term} (h : t.Clean IsLiteral) : ∀ i ∈ t.items, i.Starts := by
  obtain ⟨i, is, hi, hs, hq⟩ := h.items_cons
  rw [hi]
  exact List.forall_mem_cons.2 ⟨hs, fun j hj => (hq j hj).starts⟩

theorem readsOperand_parts {t : Term} (h : t.Clean IsLiteral) {is : List Item} (hn : is ≠ [])
    (ho : NoOr is) (hu : Uncut (t.items ++ is)) (ht : NoEnd (t.items ++ is)) :
    ReadsOperand (t.items ++ is) (elementary (t.items ++ is)) := by
  obtain ⟨j, js, hj, hs, hq⟩ := h.items_cons
  rw [hj] at hu ht ⊢
  exact readsOperand_elementary hs (by simp [hn])
    (NoOr.append (fun i hi => (hq i hi).starts.isWord.2.1) ho) hu ht

theorem readsOperand_term {t : Term} (h : t.Clean IsLiteral) {is : List Item} (hn : is ≠ [])
    (hq : ∀ i ∈ is, i.Quiet) : ReadsOperand (t.items ++ is) (elementary (t.items ++ is)) := by
  obtain ⟨j, js, hj, hs, hjs⟩ := h.items_cons
  rw [hj]
  exact readsOperand_of_quiet hs (by simp [hn])
    fun i hi => (List.mem_append.1 hi).elim (hjs i) (hq i)

theorem noEnd_term {t : Term} (h : t.Clean IsLiteral) {is : List Item}
    (hq : ∀ i ∈ is, i.isConnective = false ∧ i.ends = false) : NoEnd (t.items ++ is) := by
  obtain ⟨j, js, hj, hs, hjs⟩ := h.items_cons
  rw [hj]
  exact noEnd_cons hs.1
    fun i hi => (List.mem_append.1 hi).elim (fun hi => ⟨(hjs i hi).1, (hjs i hi).2.2⟩) (hq i)

theorem likeItems_quiet (before after : Bool) (s : String) :
    likeItems before after s ≠ [] ∧ ∀ i ∈ likeItems before after s, i.Quiet := by
  refine ⟨by simp [likeItems], ?_⟩
  unfold likeItems
  refine List.forall_mem_append.2 ⟨?_, ?_⟩
  · exact List.forall_mem_cons.2
      ⟨⟨rfl, rfl, rfl⟩, List.forall_mem_cons.2 ⟨⟨rfl, rfl, rfl⟩, by simp⟩⟩
  · split
    · simp
    · exact List.forall_mem_cons.2
        ⟨⟨rfl, rfl, rfl⟩, List.forall_mem_cons.2 ⟨⟨rfl, rfl, rfl⟩, by simp⟩⟩

/-! ## Clauses -/

namespace Predicate

/-- The disjuncts of a predicate, each with its conjuncts. -/
def clauses : Predicate → List (List (Formula (List Item)))
  | and p q => [p.clauses.flatten ++ q.clauses.flatten]
  | or p q => p.clauses ++ q.clauses
  | not p => [[.not (.clauses p.clauses)]]
  | paren p => [[.clauses p.clauses]]
  | p => [[elementary p.items]]

/-- What a layered predicate reads as. -/
def formula (p : Predicate) : Formula (List Item) := .clauses p.clauses

@[simp] theorem formula_paren (p : Predicate) : (paren p).formula = p.formula := rfl

@[simp] theorem formula_not (p : Predicate) : (not p).formula = .not p.formula := rfl

/-- How loosely the outermost connective binds. -/
def level : Predicate → Nat
  | or _ _ => 2
  | and _ _ => 1
  | _ => 0

/-- No connective stands directly under one that binds tighter. -/
def Layered : Predicate → Prop
  | and p q => p.Layered ∧ q.Layered ∧ p.level ≤ 1 ∧ q.level ≤ 1
  | or p q => p.Layered ∧ q.Layered
  | not p => p.Layered ∧ p.level = 0
  | paren p => p.Layered
  | _ => True

/-- What the items of a predicate read as, by its level. -/
structure Reads (p : Predicate) : Prop where
  operand : p.level = 0 → ReadsOperand p.items (.clauses p.clauses)
  factors : p.level ≤ 1 → ReadsFactors p.items p.clauses.flatten
  clauses : ReadsClauses p.items p.clauses

theorem reads_of_operand {p : Predicate} {f : Formula (List Item)} (hp : p.clauses = [[f]])
    (h : ReadsOperand p.items f) : p.Reads where
  operand _ := by rw [hp]; exact h
  factors _ := by rw [hp]; exact h.factors
  clauses := by rw [hp]; exact h.factors.clauses

theorem reads_between {t low high : Term} (h : (between t low high).Clean IsLiteral) :
    ReadsOperand (between t low high).items (elementary (between t low high).items) := by
  obtain ⟨ht, hl, hh⟩ := h
  have hcut {is : List Item} (h : ∀ i ∈ is, i.Starts) :
      ∀ i ∈ is, i.isWord "AND" = false ∧ i.isWord "BETWEEN" = false :=
    fun i hi => ⟨(h i hi).isWord.1, (h i hi).2⟩
  refine readsOperand_parts ht (List.cons_ne_nil _ _) ?_ ?_ ?_
  · refine List.forall_mem_cons.2 ⟨rfl, List.forall_mem_append.2 ⟨?_, ?_⟩⟩
    · exact fun i hi => (hl.1.starts i hi).isWord.2.1
    · exact List.forall_mem_cons.2 ⟨rfl, fun i hi => (hh.1.starts i hi).isWord.2.1⟩
  · exact uncut_between (hcut ht.starts) (hcut hl.1.starts) (hcut hh.1.starts)
  · have hlow : NoEnd (t.items ++ word "BETWEEN" :: low.items) :=
      noEnd_term ht (List.forall_mem_cons.2
        ⟨⟨rfl, rfl⟩, fun i hi => ⟨(hl.quiet.2 i hi).1, (hl.quiet.2 i hi).2.2⟩⟩)
    have hhigh : NoEnd high.items := by
      have : NoEnd (high.items ++ []) := noEnd_term hh.1 (by simp)
      rwa [List.append_nil] at this
    have := hlow.join (i := word "AND") rfl rfl hhigh
    rwa [List.append_assoc] at this

theorem reads_isNotNull {t : Term} (h : t.Clean IsLiteral) :
    ReadsOperand (isNotNull t).items (elementary (isNotNull t).items) := by
  refine readsOperand_parts h (List.cons_ne_nil _ _) ?_ (uncut_of_forall ?_) ?_
  · unfold NoOr; decide
  · exact List.forall_mem_append.2
      ⟨fun i hi => ⟨(h.starts i hi).isWord.1, (h.starts i hi).2⟩, by decide⟩
  · have hterm : NoEnd (t.items ++ [word "IS"]) := noEnd_term h (by decide)
    have hnull : NoEnd [word "NULL"] := noEnd_cons rfl (by simp)
    have := hterm.join (i := word "NOT") rfl rfl hnull
    rwa [List.append_assoc] at this

theorem reads_isNotIn {t : Term} {ts : List Term} (h : t.Clean IsLiteral) :
    ReadsOperand (isNotIn t ts).items (elementary (isNotIn t ts).items) := by
  refine readsOperand_parts h (List.cons_ne_nil _ _) ?_ (uncut_of_forall ?_) ?_
  · exact List.forall_mem_cons.2
      ⟨rfl, List.forall_mem_cons.2 ⟨rfl, List.forall_mem_cons.2 ⟨rfl, by simp⟩⟩⟩
  · refine List.forall_mem_append.2
      ⟨fun i hi => ⟨(h.starts i hi).isWord.1, (h.starts i hi).2⟩, ?_⟩
    exact List.forall_mem_cons.2 ⟨⟨rfl, rfl⟩, List.forall_mem_cons.2
      ⟨⟨rfl, rfl⟩, List.forall_mem_cons.2 ⟨⟨rfl, rfl⟩, by simp⟩⟩⟩
  · have hterm : NoEnd (t.items ++ []) := noEnd_term h (by simp)
    rw [List.append_nil] at hterm
    exact hterm.join (i := word "NOT") rfl rfl
      (noEnd_cons (i := word "IN") rfl (List.forall_mem_cons.2 ⟨⟨rfl, rfl⟩, by simp⟩))

/-- The text of a layered predicate reads as its clauses. -/
theorem reads {p : Predicate} (hl : p.Layered) (h : p.Clean IsLiteral) : p.Reads := by
  induction p with
  | always | never =>
    exact reads_of_operand rfl (readsOperand_of_quiet ⟨rfl, rfl⟩ (List.cons_ne_nil _ _) (by decide))
  | compare l r t =>
    refine reads_of_operand rfl (readsOperand_term h.1 (List.cons_ne_nil _ _) ?_)
    exact List.forall_mem_cons.2 ⟨⟨rfl, rfl, rfl⟩, h.2.quiet.2⟩
  | isNull t =>
    exact reads_of_operand rfl (readsOperand_term h (List.cons_ne_nil _ _) (by decide))
  | isNotNull t => exact reads_of_operand rfl (reads_isNotNull h)
  | between t low high => exact reads_of_operand rfl (reads_between h)
  | isIn t ts =>
    refine reads_of_operand rfl (readsOperand_term h.1 (List.cons_ne_nil _ _) ?_)
    exact List.forall_mem_cons.2
      ⟨⟨rfl, rfl, rfl⟩, List.forall_mem_cons.2 ⟨⟨rfl, rfl, rfl⟩, by simp⟩⟩
  | isNotIn t ts => exact reads_of_operand rfl (reads_isNotIn h.1)
  | like t before after s =>
    obtain ⟨hn, hq⟩ := likeItems_quiet before after s
    exact reads_of_operand rfl (readsOperand_term h hn hq)
  | rowExists | rowExistsWhere =>
    refine reads_of_operand rfl (readsOperand_of_quiet ⟨rfl, rfl⟩ (List.cons_ne_nil _ _) ?_)
    exact List.forall_mem_cons.2 ⟨⟨rfl, rfl, rfl⟩, by simp⟩
  | and p q ihp ihq =>
    have hf := ((ihp hl.1 h.1).factors hl.2.2.1).and ((ihq hl.2.1 h.2).factors hl.2.2.2)
    refine ⟨nofun, fun _ => ?_, hf.clauses⟩
    change ReadsFactors _ [_].flatten
    rw [List.flatten_singleton]; exact hf
  | or p q ihp ihq =>
    have htwo : ¬ 2 ≤ 1 := by decide
    exact ⟨nofun, fun h => absurd h htwo, (ihp hl.1 h.1).clauses.or (ihq hl.2 h.2).clauses⟩
  | not p ih => exact reads_of_operand rfl ((ih hl.1 h).operand hl.2).not
  | paren p ih => exact reads_of_operand rfl (ih hl h).clauses.group

/-- The text of a layered predicate is read back as its clauses. -/
theorem read?_text {p : Predicate} (hl : p.Layered) (h : p.Clean IsLiteral) :
    read? p.text = some (.clauses p.clauses) := by
  have hs := shows (h.mono fun _ => IsLiteral.isComplete)
  rw [read?, hs.items?, Option.bind_some, (reads hl h).clauses.formula?]

end Predicate

end Eligibility.Sql
