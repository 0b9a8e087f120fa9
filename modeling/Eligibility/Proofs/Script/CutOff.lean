import Eligibility.Proofs.Script.Items

/-!
# Scripts that are cut off

What a reader takes does not depend on where the tokens after it are cut off, as long as they are
cut off in front of a token that is no line break.

* `Reader.Cuttable`: a reader of that kind; `Spec.cuttable`, **`Cuttable.bind`**;
* `cuttable_settings`, `cuttable_parts`, **`readBlock_cut`**: clauses and blocks;
* **`Splits.cut`**: a script that breaks the grammar does so in a block, and it follows the grammar
  when it is cut off in front of that block.
-/

namespace Eligibility

open Reader

/-! ## Readers -/

namespace Reader

variable {α β : Type} {r : Reader α} {next : α → Reader β} {ts : List Token}

/-- The reader takes the same where what it leaves is cut off in front of a token. -/
def Cuttable (r : Reader α) (ts : List Token) : Prop :=
  ∀ a rest, r ts = .ok (a, rest) → ∃ us, ts = us ++ rest ∧
    ∀ before t after, rest = before ++ t :: after → t.kind ≠ .newline →
      r (us ++ before) = .ok (a, before)

/-- Where the tokens are cut off, either the same is seen ahead or nothing but line breaks. -/
theorem Spec.cuttable {g : Sentences α} {f : Follow α} (h : r.Spec g f)
    (hf : ∀ a bs, Lines bs → f a (sight bs)) (ts : List Token) : r.Cuttable ts := by
  intro a rest ha
  obtain ⟨us, hts, hus, hrest⟩ := (h.judges ts).sound a rest ha
  refine ⟨us, hts, fun before t after hcut _ => h.complete us a before hus ?_⟩
  by_cases hlines : Lines before
  · exact hf a before hlines
  · have hmark : ∃ u ∈ before, u.kind ≠ .newline := by simpa [Lines] using hlines
    rw [hcut, sight_append hmark _ [], List.append_nil] at hrest
    exact hrest

theorem cuttable_pure (a : α) (ts : List Token) : (pure a : Reader α).Cuttable ts :=
  (spec_pure a).cuttable (fun _ _ _ => trivial) ts

/-- **Of one reader after the other, the first is cut off where the second is.** -/
theorem Cuttable.bind (hr : r.Cuttable ts)
    (hn : ∀ a mid, r ts = .ok (a, mid) → (next a).Cuttable mid) : (r >>= next).Cuttable ts := by
  intro b rest hboth
  obtain ⟨a, mid, ha, hb⟩ := bind_ok_iff.1 hboth
  obtain ⟨us, hts, hfirst⟩ := hr a mid ha
  obtain ⟨ws, hmid, hsecond⟩ := hn a mid ha b rest hb
  refine ⟨us ++ ws, by rw [hts, hmid, List.append_assoc], fun before t after hcut hk => ?_⟩
  rw [List.append_assoc]
  refine bind_ok_iff.2 ⟨a, ws ++ before, ?_, hsecond before t after hcut hk⟩
  exact hfirst (ws ++ before) t after (by rw [hmid, hcut, List.append_assoc]) hk

theorem Cuttable.after {r' : Reader α} {ks mid : List Token} (h : r'.Cuttable mid)
    (hr : ∀ ts, r (ks ++ ts) = r' ts) : r.Cuttable (ks ++ mid) := by
  intro a rest ha
  rw [hr] at ha
  obtain ⟨us, rfl, hcut⟩ := h a rest ha
  refine ⟨ks ++ us, by rw [List.append_assoc], fun before t after hrest hk => ?_⟩
  rw [List.append_assoc, hr]
  exact hcut before t after hrest hk

end Reader

/-! ## Blocks -/

section Block

variable {ts rest : List Token}

theorem endsSetting_lines (s : Setting) {bs : List Token} (hbs : Lines bs) :
    EndsSetting s (sight bs) := by
  have hbeyond : (sight bs).beyond = none := by
    rw [sight, ← List.append_nil bs, dropNewlines_append hbs]
    rfl
  have hnext : ∀ t ∈ (sight bs).next, t.kind = .newline :=
    fun t ht => hbs t (List.mem_of_mem_head? ht)
  cases s with
  | condition c =>
    refine ⟨fun _ t ht => ?_, fun t ht => ?_⟩
    · rw [hnext t ht]
      rfl
    · rw [hbeyond] at ht
      cases ht
  | _ => trivial

/-- Where the clauses end, they end when cut off as well. -/
theorem cuttable_noClauses (h : ∀ t ∈ (sight ts).beyond, ∀ c, t.kind ≠ .clause c)
    (hok : of readSettings ts = .ok ([], dropNewlines ts)) : (of readSettings).Cuttable ts := by
  intro ss rest hss
  obtain ⟨rfl, rfl⟩ := Prod.mk.inj (Except.ok.inj (hok.symm.trans hss))
  obtain ⟨bs, hbs, hts⟩ := exists_lines ts
  refine ⟨bs, hts, fun before t after hcut hk => ?_⟩
  -- before the cut there is the same first token, if any
  have hhead : ∀ u ∈ before.head?, u ∈ (dropNewlines ts).head? := by
    rw [hcut]
    cases before with
    | nil => exact nofun
    | cons b before => exact fun u hu => hu
  have hdrop : dropNewlines (bs ++ before) = before := by
    rw [dropNewlines_append hbs]
    exact dropNewlines_eq fun u hu => head_dropNewlines (hhead u hu)
  rcases clause_cases (bs ++ before) with ⟨-, hend⟩ | ⟨ks, c, mid, hmid, hks⟩
  · rw [hend, hdrop]
  · obtain ⟨u, hu, hkind⟩ := hks.exists_beyond (fun _ h => h ▸ nofun) mid
    rw [← hmid, sight, hdrop] at hu
    exact absurd hkind (h u (hhead u hu) c)

theorem cuttable_settings (ts : List Token) : (of readSettings).Cuttable ts := by
  rcases clause_cases ts with ⟨hno, hok⟩ | ⟨ks, c, mid, rfl, hk⟩
  · exact cuttable_noClauses hno hok
  · have hclauses : (clauses (some c)).Cuttable mid := by
      have hsetting := (spec_setting c).cuttable (fun s _ => endsSetting_lines s) mid
      refine hsetting.bind fun s rest hs => ?_
      have hlt : rest.length < (ks ++ mid).length := by
        obtain ⟨us, rfl, -⟩ := hsetting s rest hs
        have := hk.length_pos
        rw [List.length_append, List.length_append]
        omega
      exact (cuttable_settings rest).bind fun _ _ _ => cuttable_pure _ _
    exact hclauses.after fun ts => readSettings_of_clause hk
termination_by ts.length

theorem cuttable_parts (ts : List Token) : readParts.Cuttable ts :=
  (spec_name.cuttable (fun _ _ _ => trivial) ts).bind fun _ mid _ =>
    (cuttable_settings mid).bind fun _ _ _ => cuttable_pure _ _

/-- The rule of a block depends on the tokens of the block alone. -/
theorem blockRule_append (start : Token) (us rest : List Token)
    (parts : String × List Setting) :
    blockRule start (us ++ rest) parts rest =
      { (Rule.named parts.1).applyAll parts.2 with
        startLine := start.position.line
        endLine := lastLine (start :: us) } := by
  have htake : (start :: (us ++ rest)).take ((us ++ rest).length + 1 - rest.length) =
      start :: us := by
    rw [List.length_append, show us.length + rest.length + 1 - rest.length = us.length + 1 by omega,
      List.take_succ_cons, List.take_left]
  rw [blockRule, htake]

/-- **A block is read the same where the script is cut off after it.** -/
theorem readBlock_cut (start : Token) {r : Rule}
    (h : of (readBlock start) ts = .ok (r, rest)) :
    ∃ us, ts = us ++ rest ∧ ∀ before t after, rest = before ++ t :: after → t.kind ≠ .newline →
      of (readBlock start) (us ++ before) = .ok (r, before) := by
  obtain ⟨parts, hparts, rfl⟩ := readParts_ok h
  obtain ⟨us, rfl, hcut⟩ := cuttable_parts ts parts rest hparts
  refine ⟨us, rfl, fun before t after hrest hk => ?_⟩
  rw [of_readBlock, hcut before t after hrest hk, blockRule_append]
  show Except.ok (blockRule start (us ++ before) parts before, before) = _
  rw [blockRule_append]

end Block

/-! ## Scripts -/

/-- **A script that breaks the grammar does so in a block,** and it follows the grammar when it is
cut off in front of that block: its parts are those read before. -/
theorem Splits.cut {ts : List Token} {items : List Item} {e : Failure}
    (h : Splits ts items (some e)) :
    ∃ before t after, ts = before ++ t :: after ∧ t.kind = .rule ∧
      of (readBlock t) after = .error e ∧ readItems before = (items, none) := by
  generalize hf : some e = f at h
  induction h with
  | done => cases hf
  | @stray bs ts t items f hbs hk hr h ih =>
    obtain ⟨before, u, after, rfl, hu, hfail, hread⟩ := ih hf
    refine ⟨bs ++ t :: before, u, after, by simp, hu, hfail, ?_⟩
    rw [readItems_stray hbs hk hr, hread]
  | @rule bs ts rest t r items f hbs hr hb h ih =>
    obtain ⟨before, u, after, rfl, hu, hfail, hread⟩ := ih hf
    obtain ⟨us, rfl, hcut⟩ := readBlock_cut t hb
    have hblock := hcut before u after rfl (hu ▸ nofun)
    refine ⟨bs ++ t :: (us ++ before), u, after, by simp, hu, hfail, ?_⟩
    rw [readItems_block hbs hr hblock, hread]
  | @fails bs ts t e' hbs hr hb =>
    cases hf
    exact ⟨bs, t, ts, rfl, hr, hb, readItems_lines hbs⟩

end Eligibility
