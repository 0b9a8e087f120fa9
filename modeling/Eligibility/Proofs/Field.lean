import Eligibility.Field.Mapping
import Eligibility.Proofs.Identifier
import Std.Data.TreeMap.Lemmas

/-!
# Checked mappings

What a mapping that passes its check promises about the names that SQL is written with.

* `isName_of_plain`, `isName_of_qualified`: checked names are names;
* `Schema.Checked`, `Mapping.Checked`, **`Mapping.checked_of_check`**;
* `Mapping.Checked.base`, `grid`, `gridChild`: the names that an id resolves to.
-/

namespace Eligibility

open Text (pieces)

/-! ## Names -/

theorem isWordStart_of_plain {c : Char} (h : (c.isAlpha || c == '_') = true) :
    isWordStart c = true := by
  rcases Bool.or_eq_true_iff.1 h with h | h
  · have : c.val < 128 := by
      have halpha : (c.isUpper || c.isLower) = true := h
      rcases Bool.or_eq_true_iff.1 halpha with hupper | hlower
      · exact UInt32.lt_of_le_of_lt (of_decide_eq_true hupper).2 (by decide)
      · have hz : c.val ≤ 'z'.val := of_decide_eq_true (Bool.and_eq_true_iff.1 hlower).2
        exact UInt32.lt_of_le_of_lt hz (by decide)
    rw [isWordStart, Text.isLetter, if_pos this, h, Bool.true_or]
  · rw [isWordStart, h, Bool.or_true]

theorem isWordChar_of_plain {c : Char} (h : (c.isAlphanum || c == '_') = true) :
    isWordChar c = true := by
  rw [Char.isAlphanum, Bool.or_assoc, Bool.or_left_comm] at h
  rcases Bool.or_eq_true_iff.1 h with h | h
  · have : c.val < 128 := by
      simp only [Char.isDigit, Bool.and_eq_true, decide_eq_true_eq] at h
      exact UInt32.lt_of_le_of_lt h.2 (by decide)
    rw [isWordChar, Text.isNumeral, if_pos this, h, Bool.or_true, Bool.true_or]
  · exact isWordChar_of_isWordStart (isWordStart_of_plain h)

theorem isPlainName_cons {cs : List Char} (h : isPlainName cs = true) :
    ∃ c rest, cs = c :: rest ∧ isWordStart c = true ∧ cs.all isWordChar = true := by
  cases cs with
  | nil => cases h
  | cons c rest =>
    rw [isPlainName, Bool.and_eq_true] at h
    have hc := isWordStart_of_plain h.1
    refine ⟨c, rest, rfl, hc, ?_⟩
    rw [List.all_cons, isWordChar_of_isWordStart hc, Bool.true_and, List.all_eq_true]
    exact fun d hd => isWordChar_of_plain (List.all_eq_true.1 h.2 d hd)

theorem isName_of_plain {cs : List Char} (h : isPlainName cs = true) : isName cs = true := by
  obtain ⟨c, rest, rfl, hc, hw⟩ := isPlainName_cons h
  rw [List.all_cons, Bool.and_eq_true] at hw
  rw [isName, hc, tailWidth_of_all hw.2, beq_self_eq_true]; rfl

theorem pieces_ne_nil (p : Char → Bool) (cs : List Char) : pieces p cs ≠ [] := by
  cases cs with
  | nil => exact List.cons_ne_nil _ _
  | cons c cs =>
    rw [pieces]
    split
    · exact List.cons_ne_nil _ _
    · split <;> exact List.cons_ne_nil _ _

theorem pieces_head {p : Char → Bool} {c : Char} {cs q : List Char} {qs : List (List Char)}
    (h : pieces p cs = (c :: q) :: qs) : ∃ rest, cs = c :: rest := by
  cases cs with
  | nil => cases h
  | cons d cs =>
    rw [pieces] at h
    split at h
    · cases h
    · split at h <;> cases h <;> exact ⟨_, rfl⟩

theorem tailWidth_of_pieces {cs p : List Char} {ps : List (List Char)}
    (h : pieces (· == '.') cs = p :: ps) (hp : p.all isWordChar = true)
    (hps : ∀ q ∈ ps, isPlainName q = true) : tailWidth cs = cs.length := by
  induction cs generalizing p ps with
  | nil => rfl
  | cons c cs ih =>
    rw [pieces] at h
    split at h
    · rename_i hc
      obtain ⟨rfl, rfl⟩ := List.cons.inj h
      rw [beq_iff_eq] at hc; subst hc
      obtain ⟨q, qs, hq⟩ := List.exists_cons_of_ne_nil (pieces_ne_nil (· == '.') cs)
      rw [hq] at hps
      have hqs := List.forall_mem_cons.1 hps
      obtain ⟨d, rest, rfl, hd, hw⟩ := isPlainName_cons hqs.1
      obtain ⟨ds, rfl⟩ := pieces_head hq
      rw [tailWidth_dot (isWordChar_of_isWordStart hd), ih hq hw hqs.2]; rfl
    · split at h
      · rename_i hn; exact absurd hn (pieces_ne_nil _ _)
      · rename_i q qs hq
        obtain ⟨rfl, rfl⟩ := List.cons.inj h
        rw [List.all_cons, Bool.and_eq_true] at hp
        rw [tailWidth_cons hp.1, ih hq hp.2 hps, List.length_cons]

theorem isName_of_qualified {cs : List Char} (h : isQualifiedName cs = true) :
    isName cs = true := by
  obtain ⟨q, qs, hq⟩ := List.exists_cons_of_ne_nil (pieces_ne_nil (· == '.') cs)
  rw [isQualifiedName, hq, List.all_eq_true] at h
  have hqs := List.forall_mem_cons.1 h
  obtain ⟨c, rest, rfl, hc, hw⟩ := isPlainName_cons hqs.1
  have hfull := tailWidth_of_pieces hq hw hqs.2
  obtain ⟨ds, rfl⟩ := pieces_head hq
  rw [tailWidth_cons (isWordChar_of_isWordStart hc), List.length_cons] at hfull
  rw [isName, hc, Nat.succ.inj hfull, beq_self_eq_true]; rfl

theorem isName_column {a b : List Char} (ha : isPlainName a = true) (hb : isPlainName b = true) :
    isName (a ++ '.' :: b) = true := by
  obtain ⟨d, ds, rfl, hd, hw⟩ := isPlainName_cons hb
  exact isName_dotted (isName_of_plain ha) (isWordChar_of_isWordStart hd) (tailWidth_of_all hw)

/-! ## Checks -/

theorem forM_eq_ok {ε α : Type} {f : α → Except ε Unit} {xs : List α} :
    xs.forM f = .ok () ↔ ∀ x ∈ xs, f x = .ok () := by
  induction xs with
  | nil => exact ⟨fun _ _ h => absurd h (by simp), fun _ => rfl⟩
  | cons x xs ih =>
    rw [List.forall_mem_cons, ← ih]
    change ((f x).bind fun _ => xs.forM f) = .ok () ↔ _
    cases f x with
    | error e =>
      refine ⟨fun h => ?_, fun h => absurd h.1 (by simp)⟩
      change Except.error e = .ok () at h
      cases h
    | ok u => exact ⟨fun h => ⟨rfl, h⟩, fun h => h.2⟩

theorem bind_eq_ok {ε α β : Type} {x : Except ε α} {f : α → Except ε β} {b : β}
    (h : x.bind f = .ok b) : ∃ a, x = .ok a ∧ f a = .ok b := by
  cases x with
  | error e => cases h
  | ok a => exact ⟨a, rfl, h⟩

theorem checkName_eq_ok {dotted : Bool} {s : String} (h : checkName dotted s = .ok ()) :
    (if dotted then isQualifiedName s.toList else isPlainName s.toList) = true := by
  by_cases hs : (if dotted then isQualifiedName s.toList else isPlainName s.toList) = true
  · exact hs
  · rw [checkName, if_neg hs] at h; cases h

/-- The names of a schema that SQL is written with. -/
structure Schema.Checked (s : Schema) : Prop where
  baseTable : isQualifiedName s.baseTable.toList = true
  baseAlias : isPlainName s.baseAlias.toList = true
  keyColumn : isPlainName s.keyColumn.toList = true
  gridAlias : isPlainName s.gridAlias.toList = true
  gridForeignKey : isPlainName s.gridForeignKey.toList = true

theorem Schema.checked_of_check {s : Schema} (h : s.check = .ok ()) : s.Checked := by
  obtain ⟨_, -, h⟩ := bind_eq_ok h
  obtain ⟨_, hn, ht⟩ := bind_eq_ok h
  have hname (t : String) (ht : t ∈ [s.baseAlias, s.keyColumn, s.gridAlias, s.gridForeignKey]) :
      isPlainName t.toList = true := checkName_eq_ok (forM_eq_ok.1 hn t ht)
  exact ⟨checkName_eq_ok ht, hname _ (by simp), hname _ (by simp), hname _ (by simp),
    hname _ (by simp)⟩

namespace Mapping

/-- The names of a mapping that SQL is written with. -/
structure Checked (m : Mapping) : Prop where
  schema : m.schema.Checked
  target : ∀ (id : String) (f : MappedField), m.fields[id]? = some f →
    (if f.definition.isGrid then isQualifiedName f.target.toList
      else isPlainName f.target.toList) = true

theorem mem_values {β : Type} {t : Std.TreeMap String β} {k : String} {v : β}
    (h : t[k]? = some v) : v ∈ t.values := by
  have hv : t.values = t.toList.map (·.2) := by
    change t.foldr (fun _ v l => v :: l) [] = _
    rw [Std.TreeMap.foldr_eq_foldr_toList]
    induction t.toList with
    | nil => rfl
    | cons a l ih => rw [List.foldr_cons, ih]; rfl
  rw [hv]
  have : (k, v) ∈ t.toList := Std.TreeMap.mem_toList_iff_getElem?_eq_some.2 h
  exact List.mem_map_of_mem this

/-- A mapping that passes its check has checked names. -/
theorem checked_of_check {m : Mapping} (h : m.check = .ok ()) : m.Checked := by
  obtain ⟨_, hs, hf⟩ := bind_eq_ok h
  refine ⟨Schema.checked_of_check hs, fun id f hid => ?_⟩
  obtain ⟨_, hc, -⟩ := bind_eq_ok (forM_eq_ok.1 hf f (mem_values hid))
  exact checkName_eq_ok hc

/-- The grid of a child has a table. -/
theorem gridTable?_of_check {m : Mapping} (h : m.check = .ok ()) {id grid : String}
    {f : MappedField} (hid : m.fields[id]? = some f) (hgrid : f.definition.isGrid = false)
    (hparent : f.definition.parent? = some grid) : (m.gridTable? grid).isSome = true := by
  obtain ⟨_, -, hf⟩ := bind_eq_ok h
  obtain ⟨_, -, hc⟩ := bind_eq_ok (forM_eq_ok.1 hf f (mem_values hid))
  cases htable : m.gridTable? grid with
  | some table => rfl
  | none => simp [hgrid, hparent, htable] at hc

namespace Checked

variable {m : Mapping} (hm : m.Checked)
include hm

theorem gridTable {id table : String} (h : m.gridTable? id = some table) :
    isQualifiedName table.toList = true := by
  obtain ⟨f, hf, hg⟩ := Option.bind_eq_some_iff.1 h
  split at hg
  · rename_i hgrid; cases hg
    have := hm.target id f hf
    rwa [if_pos hgrid] at this
  · cases hg

theorem base {id column : String} {d : FieldDefinition}
    (h : m.resolve? id = some (.base column d)) : isPlainName column.toList = true := by
  obtain ⟨f, hf, hr⟩ := Option.bind_eq_some_iff.1 h
  split at hr
  · cases hr
  rename_i hgrid
  split at hr
  · obtain ⟨_, -, hr⟩ := Option.map_eq_some_iff.1 hr; cases hr
  · cases hr
    have := hm.target id f hf
    rwa [if_neg hgrid] at this

theorem grid {id table : String} {d : FieldDefinition}
    (h : m.resolve? id = some (.grid table d)) : isQualifiedName table.toList = true := by
  obtain ⟨f, hf, hr⟩ := Option.bind_eq_some_iff.1 h
  split at hr
  · rename_i hgrid; cases hr
    have := hm.target id f hf
    rwa [if_pos hgrid] at this
  split at hr
  · obtain ⟨_, -, hr⟩ := Option.map_eq_some_iff.1 hr; cases hr
  · cases hr

theorem gridChild {id table column : String} {d : FieldDefinition}
    (h : m.resolve? id = some (.gridChild table column d)) :
    isQualifiedName table.toList = true ∧ isPlainName column.toList = true := by
  obtain ⟨f, hf, hr⟩ := Option.bind_eq_some_iff.1 h
  split at hr
  · cases hr
  rename_i hgrid
  split at hr
  · obtain ⟨t, ht, hr⟩ := Option.map_eq_some_iff.1 hr
    cases hr
    have := hm.target id f hf
    rw [if_neg hgrid] at this
    exact ⟨hm.gridTable ht, this⟩
  · cases hr

end Checked

end Mapping

end Eligibility
