import Eligibility.Proofs.Script.Blocks
import Eligibility.Script.Report

/-!
# Reading scripts

* `readItems_lines`, `readItems_stray`, `readItems_block`, `readItems_fails`: one part after the
  other;
* `Splits`, **`splits_readItems`**: how a script falls into parts;
* **`Splits.stops`**: where a script breaks the grammar, it has followed it up to there.
-/

namespace Eligibility

open Reader

/-! ## One part -/

section Part

variable {bs ts rest : List Token} {t : Token}

theorem readItems_lines (hbs : Lines bs) : readItems bs = ([], none) := by
  have hnone : next? true some bs = none := by
    rw [next?_eq_none_iff]
    intro t ht
    obtain ⟨u, hu, hk⟩ : ∃ u ∈ bs, u.kind ≠ .newline := by
      have hmem := List.mem_of_mem_head? (a := t) (l := dropNewlines bs) ht
      exact ⟨t, (List.dropWhile_sublist _).subset hmem, head_dropNewlines ht⟩
    exact absurd (hbs u hu) hk
  rw [readItems, hnone]

/-- A part that starts with a token: a block if the token is `RULE`, or else a stray token. -/
theorem readItems_cons (hbs : Lines bs) (hk : t.kind ≠ .newline) :
    readItems (bs ++ t :: ts) =
      if t.kind = .rule then
        match of (readBlock t) ts with
        | .error f => ([], some f)
        | .ok q => (.rule q.1 :: (readItems q.2).1, (readItems q.2).2)
      else (.stray t :: (readItems ts).1, (readItems ts).2) := by
  have hahead : ahead true (bs ++ t :: ts) = t :: ts := by
    show dropNewlines _ = _
    rw [dropNewlines_append hbs, dropNewlines_cons hk]
  have hread : some t = some t := rfl
  obtain ⟨⟨u, rest, hlt⟩, hq, hu, hrest⟩ := next?_of_ahead_cons hahead hread
  obtain rfl : u = t := hu
  obtain rfl : rest = ts := hrest
  rw [readItems, hq]
  dsimp only
  split
  · show _ = match (readBlock u rest).outcome with
      | .error f => _
      | .ok q => _
    cases readBlock u rest <;> rfl
  · rfl

theorem readItems_stray (hbs : Lines bs) (hk : t.kind ≠ .newline) (hr : t.kind ≠ .rule) :
    readItems (bs ++ t :: ts) = (.stray t :: (readItems ts).1, (readItems ts).2) := by
  rw [readItems_cons hbs hk, if_neg hr]

theorem readItems_block {r : Rule} (hbs : Lines bs) (hr : t.kind = .rule)
    (h : of (readBlock t) ts = .ok (r, rest)) :
    readItems (bs ++ t :: ts) = (.rule r :: (readItems rest).1, (readItems rest).2) := by
  rw [readItems_cons hbs (hr ▸ nofun), if_pos hr, h]

theorem readItems_fails {e : Failure} (hbs : Lines bs) (hr : t.kind = .rule)
    (h : of (readBlock t) ts = .error e) : readItems (bs ++ t :: ts) = ([], some e) := by
  rw [readItems_cons hbs (hr ▸ nofun), if_pos hr, h]

end Part

/-! ## All parts -/

/-- How a script falls into parts, up to the first place that breaks the grammar. -/
inductive Splits : List Token → List Item → Option Failure → Prop
  | done {bs : List Token} (hbs : Lines bs) : Splits bs [] none
  | stray {bs ts : List Token} {t : Token} {items : List Item} {f : Option Failure}
      (hbs : Lines bs) (hk : t.kind ≠ .newline) (hr : t.kind ≠ .rule) (h : Splits ts items f) :
      Splits (bs ++ t :: ts) (.stray t :: items) f
  | rule {bs ts rest : List Token} {t : Token} {r : Rule} {items : List Item} {f : Option Failure}
      (hbs : Lines bs) (hr : t.kind = .rule) (hb : of (readBlock t) ts = .ok (r, rest))
      (h : Splits rest items f) : Splits (bs ++ t :: ts) (.rule r :: items) f
  | fails {bs ts : List Token} {t : Token} {e : Failure} (hbs : Lines bs) (hr : t.kind = .rule)
      (hb : of (readBlock t) ts = .error e) : Splits (bs ++ t :: ts) [] (some e)

theorem splits_readItems (ts : List Token) : Splits ts (readItems ts).1 (readItems ts).2 := by
  obtain ⟨bs, hbs, hts⟩ := exists_lines ts
  cases hd : dropNewlines ts with
  | nil =>
    rw [hts, hd, List.append_nil, readItems_lines hbs]
    exact .done hbs
  | cons t us =>
    have hk : t.kind ≠ .newline := head_dropNewlines (congrArg List.head? hd)
    have hlen : ts.length = bs.length + (us.length + 1) := by
      rw [hts, hd, List.length_append, List.length_cons]
    rw [hts, hd]
    by_cases hr : t.kind = .rule
    · cases hb : of (readBlock t) us with
      | error e =>
        rw [readItems_fails hbs hr hb]
        exact .fails hbs hr hb
      | ok q =>
        have hlt : q.2.length < ts.length := by
          obtain ⟨_, vs, hus, -⟩ := readBlock_ok hb
          rw [hlen, hus, List.length_cons, List.length_append]
          omega
        rw [readItems_block hbs hr hb]
        exact .rule hbs hr hb (splits_readItems q.2)
    · rw [readItems_stray hbs hk hr]
      exact .stray hbs hk hr (splits_readItems us)
termination_by ts.length

/-! ## The place of a failure -/

theorem steady_readBlock (start : Token) {ts rest : List Token} {r : Rule}
    (h : of (readBlock start) ts = .ok (r, rest)) :
    ∃ us, ts = us ++ rest ∧ Inside us ∧ ∀ rest', sight rest' = sight rest →
      ∃ r', of (readBlock start) (us ++ rest') = .ok (r', rest') := by
  obtain ⟨q, hq, -⟩ := readParts_ok h
  obtain ⟨us, hts, hus, hstable⟩ := (steady_parts ts).takes q rest hq
  refine ⟨us, hts, hus, fun rest' hs => ⟨blockRule start (us ++ rest') q rest', ?_⟩⟩
  rw [of_readBlock, hstable rest' hs]
  rfl

theorem readBlock_stops (start : Token) {ts : List Token} {e : Failure}
    (h : of (readBlock start) ts = .error e) :
    ∃ us, ts = us ++ e.rest ∧
      (∃ more r, Inside more ∧ of (readBlock start) (us ++ more) = .ok (r, [])) ∧
      ∀ t ∈ e.rest.head?, (of (readBlock start)).StopsAt us e.expected t := by
  have hparts : readParts ts = .error e := by
    rw [of_readBlock] at h
    cases hparts : readParts ts with
    | ok q => rw [hparts] at h; cases h
    | error e' =>
      rw [hparts] at h
      cases h
      rfl
  obtain ⟨us, hts, ⟨more, q, hmore, hok⟩, hstop⟩ := (steady_parts ts).stops e hparts
  refine ⟨us, hts, ⟨more, blockRule start (us ++ more) q [], hmore, ?_⟩, fun t ht post => ?_⟩
  · rw [of_readBlock, hok]
    rfl
  · rw [of_readBlock, hstop t ht post]
    rfl

/-- **Where a script breaks the grammar, it has followed it up to there,** and nothing that follows
the token at that place makes a difference. -/
theorem Splits.stops {ts : List Token} {items : List Item} {e : Failure}
    (h : Splits ts items (some e)) :
    ∃ us, ts = us ++ e.rest ∧ (∃ u ∈ us, u.kind ≠ .newline) ∧
      (∃ more, Inside more ∧ (readItems (us ++ more)).2 = none) ∧
      ∀ t ∈ e.rest.head?, ∀ post,
        (readItems (us ++ t :: post)).2 = some ⟨e.expected, t :: post⟩ := by
  generalize hf : some e = f at h
  induction h with
  | done => cases hf
  | @stray bs ts t items f hbs hk hr h ih =>
    obtain ⟨us, rfl, -, ⟨more, hmore, hok⟩, hstop⟩ := ih hf
    have hcons (ts : List Token) : bs ++ t :: us ++ ts = bs ++ t :: (us ++ ts) := by simp
    refine ⟨bs ++ t :: us, (hcons _).symm, ⟨t, by simp, hk⟩, ⟨more, hmore, ?_⟩, fun u hu post => ?_⟩
    · rw [hcons, readItems_stray hbs hk hr]
      exact hok
    · rw [hcons, readItems_stray hbs hk hr]
      exact hstop u hu post
  | @rule bs ts rest t r items f hbs hr hb h ih =>
    obtain ⟨vs, rfl, hmark, ⟨more, hmore, hok⟩, hstop⟩ := ih hf
    obtain ⟨us, rfl, -, hsteady⟩ := steady_readBlock t hb
    have hcons (ts : List Token) :
        bs ++ t :: (us ++ vs) ++ ts = bs ++ t :: (us ++ (vs ++ ts)) := by simp
    -- what is seen after the block stays as it is
    have hblock (ts : List Token) :
        (readItems (bs ++ t :: (us ++ (vs ++ ts)))).2 = (readItems (vs ++ ts)).2 := by
      obtain ⟨r', hr'⟩ := hsteady (vs ++ ts) (sight_append hmark _ _)
      rw [readItems_block hbs hr hr']
    refine ⟨bs ++ t :: (us ++ vs), (hcons _).symm, ⟨t, by simp, hr ▸ nofun⟩, ⟨more, hmore, ?_⟩,
      fun u hu post => ?_⟩
    · rw [hcons, hblock]
      exact hok
    · rw [hcons, hblock]
      exact hstop u hu post
  | @fails bs ts t e' hbs hr hb =>
    cases hf
    obtain ⟨us, rfl, ⟨more, r, hmore, hok⟩, hstop⟩ := readBlock_stops t hb
    have hcons (ts : List Token) : bs ++ t :: us ++ ts = bs ++ t :: (us ++ ts) := by simp
    refine ⟨bs ++ t :: us, (hcons _).symm, ⟨t, by simp, hr ▸ nofun⟩, ⟨more, hmore, ?_⟩,
      fun u hu post => ?_⟩
    · rw [hcons, readItems_block hbs hr hok, readItems_lines Lines.nil]
    · rw [hcons, readItems_fails hbs hr (hstop u hu post)]

end Eligibility
