import Eligibility.Proofs.Script.Settings

/-!
# Reading rule blocks

What the readers of whole parts of a script take depends on the tokens taken and on what is seen
after them; where they stop they have taken the start of a part, and nothing that follows the token
at which they stop makes it one.

* `Steady`, `Spec.steady`, **`Steady.bind`**: readers of whole parts;
* `Past`: a reader that stops only past a token that counts;
* `clause_cases`, **`steady_settings`**: the clauses of a block;
* `readParts`, **`steady_parts`**, `of_readBlock`: the name and the clauses of a block;
* `readBlock_ok`: what a block is.
-/

namespace Eligibility

namespace Reader

variable {α β : Type}

/-! ## Readers of whole parts -/

/-- What the reader takes off the tokens it takes wherever the same is seen ahead. Where it stops,
some tokens would end the part, and it stops there whatever follows. -/
structure Steady (r : Reader α) (ts : List Token) : Prop where
  takes : ∀ a rest, r ts = .ok (a, rest) → ∃ us, ts = us ++ rest ∧ Inside us ∧
    ∀ rest', sight rest' = sight rest → r (us ++ rest') = .ok (a, rest')
  stops : ∀ e, r ts = .error e → ∃ us, ts = us ++ e.rest ∧
    (∃ more a, Inside more ∧ r (us ++ more) = .ok (a, [])) ∧
    ∀ t ∈ e.rest.head?, r.StopsAt us e.expected t

/-- The reader stops only past a token that is no line break. -/
def Past (r : Reader α) (ts : List Token) : Prop :=
  ∀ e, r ts = .error e → ∃ us, ts = us ++ e.rest ∧ ∃ u ∈ us, u.kind ≠ .newline

/-- What is seen of tokens behind others depends on what is seen of them. -/
theorem sight_congr {ts ts' : List Token} (h : sight ts' = sight ts) (us : List Token) :
    sight (us ++ ts') = sight (us ++ ts) := by
  by_cases hus : Lines us
  · have hnext : (us ++ ts').head? = (us ++ ts).head? := by
      cases us with
      | nil => exact congrArg Sight.next h
      | cons => rfl
    have hbeyond := congrArg Sight.beyond h
    simp only [sight, dropNewlines_append hus] at hbeyond ⊢
    rw [hnext, hbeyond]
  · exact sight_append (by simpa [Lines] using hus) ts' ts

variable {r : Reader α} {next : α → Reader β} {g : Sentences α} {f : Follow α} {ts : List Token}

theorem Spec.steady (h : r.Spec g f) (hg : ∀ us a, g us a → Inside us)
    (hf : ∀ a, f a (sight [])) (ts : List Token) : r.Steady ts := by
  constructor
  · intro a rest ha
    obtain ⟨us, rfl, hus, hrest⟩ := (h.judges ts).sound a rest ha
    exact ⟨us, rfl, hg us a hus, fun rest' hs => h.complete us a rest' hus (hs ▸ hrest)⟩
  · intro e he
    obtain ⟨us, hts, ⟨more, a, hmore⟩, hstop⟩ := (h.judges ts).stops e he
    have hend := h.complete _ a [] hmore (hf a)
    rw [List.append_nil] at hend
    exact ⟨us, hts, ⟨more, a, (inside_append.1 (hg _ a hmore)).2, hend⟩, hstop⟩

theorem steady_pure (a : α) (ts : List Token) : (pure a : Reader α).Steady ts :=
  (spec_pure a).steady (fun _ _ h => h.1 ▸ nofun) (fun _ => trivial) ts

theorem past_pure (a : α) (ts : List Token) : (pure a : Reader α).Past ts := nofun

theorem Steady.bind (hr : r.Steady ts)
    (hn : ∀ us a mid, ts = us ++ mid → (next a).Steady mid ∧ (next a).Past mid)
    (hend : ∀ a, ∃ b, next a [] = .ok (b, [])) : (r >>= next).Steady ts := by
  constructor
  · intro b rest hboth
    obtain ⟨a, mid, ha, hb⟩ := bind_ok_iff.1 hboth
    obtain ⟨us, rfl, hus, hstable⟩ := hr.takes a mid ha
    obtain ⟨ws, rfl, hws, hstable'⟩ := (hn us a mid rfl).1.takes b rest hb
    refine ⟨us ++ ws, by rw [List.append_assoc], inside_append.2 ⟨hus, hws⟩, fun rest' hs => ?_⟩
    rw [List.append_assoc]
    exact bind_ok_iff.2 ⟨a, ws ++ rest', hstable _ (sight_congr hs ws), hstable' rest' hs⟩
  · intro e he
    rcases bind_error_iff.1 he with hfirst | ⟨a, mid, ha, hnext⟩
    · -- the first part can be ended, and then the tokens may end as well
      obtain ⟨us, hts, ⟨more, a, hmore, hok⟩, hstop⟩ := hr.stops e hfirst
      obtain ⟨b, hb⟩ := hend a
      exact ⟨us, hts, ⟨more, b, hmore, bind_ok_iff.2 ⟨a, [], hok, hb⟩⟩,
        fun t ht post => bind_error_iff.2 (.inl (hstop t ht post))⟩
    · -- the first part is followed by a token that counts, so it is read as before
      obtain ⟨us, rfl, hus, hstable⟩ := hr.takes a mid ha
      obtain ⟨ws, rfl, ⟨more, b, hmore, hok⟩, hstop⟩ := (hn us a mid rfl).1.stops e hnext
      obtain ⟨ws', hws', hmark⟩ := (hn us a _ rfl).2 e hnext
      obtain rfl := List.append_cancel_right hws'
      have hfirst (ts : List Token) : r (us ++ (ws ++ ts)) = .ok (a, ws ++ ts) :=
        hstable _ (sight_append hmark _ _)
      refine ⟨us ++ ws, by rw [List.append_assoc], ⟨more, b, hmore, ?_⟩, fun t ht post => ?_⟩
      · rw [List.append_assoc]
        exact bind_ok_iff.2 ⟨a, _, hfirst more, hok⟩
      · rw [List.append_assoc]
        exact bind_error_iff.2 (.inr ⟨a, _, hfirst _, hstop t ht post⟩)

theorem Past.bind (h : r.Past ts) (hn : ∀ a mid e, r ts = .ok (a, mid) → next a mid ≠ .error e) :
    (r >>= next).Past ts := by
  intro e he
  rcases bind_error_iff.1 he with he | ⟨a, mid, ha, he⟩
  · exact h e he
  · exact absurd he (hn a mid e ha)

theorem Steady.after {r' : Reader α} {ks mid : List Token} (h : r'.Steady mid) (hks : Inside ks)
    (hr : ∀ ts, r (ks ++ ts) = r' ts) : r.Steady (ks ++ mid) := by
  constructor
  · intro a rest ha
    rw [hr] at ha
    obtain ⟨us, rfl, hus, hstable⟩ := h.takes a rest ha
    refine ⟨ks ++ us, by rw [List.append_assoc], inside_append.2 ⟨hks, hus⟩, fun rest' hs => ?_⟩
    rw [List.append_assoc, hr]
    exact hstable rest' hs
  · intro e he
    rw [hr] at he
    obtain ⟨us, rfl, ⟨more, a, hmore, hok⟩, hstop⟩ := h.stops e he
    refine ⟨ks ++ us, by rw [List.append_assoc], ⟨more, a, hmore, ?_⟩, fun t ht post => ?_⟩
    · rw [List.append_assoc, hr]
      exact hok
    · rw [List.append_assoc, hr]
      exact hstop t ht post

theorem Steady.past_after {r' : Reader α} {ks mid : List Token} (h : r'.Steady mid)
    (hks : ∃ u ∈ ks, u.kind ≠ .newline) (hr : ∀ ts, r (ks ++ ts) = r' ts) :
    r.Past (ks ++ mid) := by
  intro e he
  rw [hr] at he
  obtain ⟨us, rfl, -⟩ := h.stops e he
  obtain ⟨u, hu, hk⟩ := hks
  exact ⟨ks ++ us, by rw [List.append_assoc], u, List.mem_append_left _ hu, hk⟩

end Reader

open Reader

/-! ## Clauses of a block -/

section Settings

variable {ts : List Token}

/-- The reader of a clause after its keyword, and of the other clauses; line breaks end them. -/
def clauses : Option Clause → Reader (List Setting)
  | none => lines >>= fun _ => pure []
  | some c => of (readSetting c) >>= fun s => of readSettings >>= fun more => pure (s :: more)

theorem of_readSettings : of readSettings = option true Token.clause? >>= clauses := by
  funext ts
  rw [of, readSettings.eq_def]
  show _ = option true _ ts >>= fun q => clauses q.1 q.2
  unfold option
  cases next? true Token.clause? ts with
  | none => rfl
  | some c =>
    show _ = (of (readSetting c.value) >>= fun s =>
      of readSettings >>= fun more => pure (s :: more)) c.rest
    exact outcome_bind rfl fun s => outcome_bind rfl fun more => rfl

theorem of_readSettings_nil : of readSettings [] = .ok ([], []) := by
  rw [of_readSettings]
  rfl

theorem readSettings_of_clause {c : Clause} {ks mid : List Token}
    (hk : Sees true (·.kind = .clause c) ks) :
    of readSettings (ks ++ mid) = clauses (some c) mid := by
  rw [of_readSettings]
  show option true _ _ >>= (fun q => clauses q.1 q.2) = _
  rw [option_eq_some (p := fun t c => t.kind = .clause c) (fun _ _ => Token.clause?_eq_some)
    (fun _ _ h => h ▸ nofun) hk]
  rfl

theorem clause_cases (ts : List Token) :
    ((∀ t ∈ (sight ts).beyond, ∀ c, t.kind ≠ .clause c) ∧
        of readSettings ts = .ok ([], dropNewlines ts)) ∨
      ∃ ks c mid, ts = ks ++ mid ∧ Sees true (·.kind = .clause c) ks := by
  rcases option_cases (p := fun t c => t.kind = .clause c) (fun _ _ => Token.clause?_eq_some)
    true ts with ⟨hno, ho⟩ | ⟨ks, c, mid, hts, hk, -⟩
  · refine .inl ⟨hno, ?_⟩
    rw [of_readSettings]
    show option true _ _ >>= (fun q => clauses q.1 q.2) = _
    rw [ho]
    rfl
  · exact .inr ⟨ks, c, mid, hts, hk⟩

theorem steady_setting (c : Clause) (ts : List Token) : (of (readSetting c)).Steady ts := by
  refine (spec_setting c).steady (fun _ _ h => (WritesSetting.bracketed h).inside) (fun s => ?_) ts
  cases s with
  | condition c => exact ⟨fun _ => nofun, nofun⟩
  | _ => trivial

theorem steady_noClauses (h : ∀ t ∈ (sight ts).beyond, ∀ c, t.kind ≠ .clause c)
    (hok : of readSettings ts = .ok ([], dropNewlines ts)) :
    (of readSettings).Steady ts ∧ (of readSettings).Past ts := by
  have hno (e : Failure) : of readSettings ts ≠ .error e := by
    rw [hok]
    exact nofun
  refine ⟨⟨fun a rest ha => ?_, fun e he => absurd he (hno e)⟩, fun e he => absurd he (hno e)⟩
  obtain ⟨rfl, rfl⟩ := Prod.mk.inj (Except.ok.inj (hok.symm.trans ha))
  obtain ⟨bs, hbs, hts⟩ := exists_lines ts
  refine ⟨bs, hts, Lines.inside hbs, fun rest' hs => ?_⟩
  have hdrop : dropNewlines (bs ++ rest') = rest' := by
    rw [dropNewlines_append hbs]
    refine dropNewlines_eq fun t ht => ?_
    have hhead : rest'.head? = (dropNewlines ts).head? := congrArg Sight.next hs
    rw [hhead] at ht
    exact head_dropNewlines ht
  rcases clause_cases (bs ++ rest') with ⟨-, hend⟩ | ⟨ks, c, mid, hmid, hk⟩
  · rw [hend, hdrop]
  · -- the same token is seen ahead, and it is no keyword
    have hbeyond : (sight (ks ++ mid)).beyond = (sight ts).beyond := by
      rw [← hmid, hts]
      exact congrArg Sight.beyond (sight_congr hs bs)
    obtain ⟨t, ht, hkind⟩ := hk.exists_beyond (fun _ h => h ▸ nofun) mid
    exact absurd hkind (h t (hbeyond ▸ ht) c)

/-- **The clauses of a block are read steadily, and reading stops only past a keyword.** -/
theorem steady_settings (ts : List Token) :
    (of readSettings).Steady ts ∧ (of readSettings).Past ts := by
  rcases clause_cases ts with ⟨hno, hok⟩ | ⟨ks, c, mid, rfl, hk⟩
  · exact steady_noClauses hno hok
  · have hclauses : (clauses (some c)).Steady mid := by
      refine (steady_setting c mid).bind (fun us s rest hmid => ?_) fun s =>
        ⟨[s], bind_ok_iff.2 ⟨[], [], of_readSettings_nil, rfl⟩⟩
      have hlt : rest.length < (ks ++ mid).length := by
        have := hk.length_pos
        rw [hmid, List.length_append, List.length_append]
        omega
      obtain ⟨hsteady, hpast⟩ := steady_settings rest
      exact ⟨hsteady.bind (fun _ _ _ _ => ⟨steady_pure _ _, past_pure _ _⟩) fun _ => ⟨_, rfl⟩,
        hpast.bind fun _ _ _ _ => nofun⟩
    have hr (ts : List Token) : of readSettings (ks ++ ts) = clauses (some c) ts :=
      readSettings_of_clause hk
    refine ⟨hclauses.after (Sees.inside_kind hk ⟨nofun, nofun⟩) hr, hclauses.past_after ?_ hr⟩
    obtain ⟨bs, t, rfl, -, -, ht⟩ := hk
    exact ⟨t, List.mem_append_right _ List.mem_cons_self, by rw [ht]; exact nofun⟩
termination_by ts.length

end Settings

/-! ## Blocks -/

section Block

variable {start : Token} {ts rest : List Token}

/-- The reader of the name and the clauses of a block. -/
def readParts : Reader (String × List Setting) :=
  of (expect false Token.string? .ruleName) >>= fun name =>
    of readSettings >>= fun ss => pure (name, ss)

theorem spec_name :
    (of (expect false Token.string? .ruleName)).Spec
      (fun us s => Sees false (·.string? = some s) us) anything :=
  spec_expect (fun _ _ => Iff.rfl) (fun _ _ h => Token.string?_kind h ▸ nofun)
    ⟨⟨.string, "", {}⟩, _, rfl⟩

theorem steady_parts (ts : List Token) : readParts.Steady ts := by
  refine (spec_name.steady (fun _ _ h => ?_) (fun _ => trivial) ts).bind (fun _ _ mid _ => ?_)
    fun name => ⟨(name, []), bind_ok_iff.2 ⟨[], [], of_readSettings_nil, rfl⟩⟩
  · exact Sees.inside h fun _ ht => Token.string?_kind ht ▸ ⟨nofun, nofun⟩
  · obtain ⟨hsteady, hpast⟩ := steady_settings mid
    exact ⟨hsteady.bind (fun _ _ _ _ => ⟨steady_pure _ _, past_pure _ _⟩) fun _ => ⟨_, rfl⟩,
      hpast.bind fun _ _ _ _ => nofun⟩

/-- The rule of a block that takes all tokens but `rest`. -/
def blockRule (start : Token) (ts : List Token) (parts : String × List Setting)
    (rest : List Token) : Rule :=
  { (Rule.named parts.1).applyAll parts.2 with
    startLine := start.position.line
    endLine := lastLine ((start :: ts).take (ts.length + 1 - rest.length)) }

/-- A block is read as its name and its clauses are. -/
theorem of_readBlock (start : Token) (ts : List Token) :
    of (readBlock start) ts =
      (readParts ts).map fun q => (blockRule start ts q.1 q.2, q.2) := by
  rw [of, readBlock]
  show Reading.outcome (expect false Token.string? .ruleName ts >>= _) =
    Except.map _ ((expect false Token.string? .ruleName ts).outcome >>= fun q =>
      of readSettings q.2 >>= fun p => .ok ((q.1, p.1), p.2))
  cases expect false Token.string? .ruleName ts with
  | error e => rfl
  | ok name =>
    show Reading.outcome (readSettings name.rest >>= _) =
      Except.map _ ((readSettings name.rest).outcome >>= fun p => .ok ((name.value, p.1), p.2))
    cases readSettings name.rest with
    | error e => rfl
    | ok body => rfl

theorem readParts_ok {r : Rule} (h : of (readBlock start) ts = .ok (r, rest)) :
    ∃ parts, readParts ts = .ok (parts, rest) ∧ r = blockRule start ts parts rest := by
  rw [of_readBlock] at h
  cases hparts : readParts ts with
  | error e => rw [hparts] at h; cases h
  | ok q =>
    obtain ⟨parts, rest'⟩ := q
    rw [hparts] at h
    cases h
    exact ⟨parts, rfl, rfl⟩

theorem applyAll_part {α : Type} {f : Rule → α} {ss : List Setting}
    (h : ∀ s ∈ ss, ∀ r, f (s.apply r) = f r) (r : Rule) : f (r.applyAll ss) = f r := by
  unfold Rule.applyAll
  induction ss generalizing r with
  | nil => rfl
  | cons s ss ih =>
    obtain ⟨hs, hss⟩ := List.forall_mem_cons.1 h
    rw [List.foldl_cons, ih hss, hs r]

theorem applyAll_name (r : Rule) (ss : List Setting) : (r.applyAll ss).name = r.name :=
  applyAll_part (f := Rule.name) (fun s _ _ => by cases s <;> rfl) r

/-- What a block is: a quoted name, and then no keyword `RULE` up to its end. -/
theorem readBlock_ok {r : Rule} (h : of (readBlock start) ts = .ok (r, rest)) :
    ∃ name us, ts = name :: (us ++ rest) ∧ name.kind = .string ∧ Inside us ∧
      r.name = name.content ∧ r.startLine = start.position.line := by
  obtain ⟨parts, hparts, rfl⟩ := readParts_ok h
  obtain ⟨name, mid, hname, hmid⟩ := bind_ok_iff.1 hparts
  obtain ⟨ss, mid', hss, hpure⟩ := bind_ok_iff.1 hmid
  cases hpure
  obtain ⟨_, rfl, ⟨bs, t, rfl, -, hbs, ht⟩, -⟩ := (spec_name.judges ts).sound name mid hname
  obtain ⟨us, rfl, hus, -⟩ := (steady_settings mid).1.takes ss _ hss
  obtain rfl := hbs rfl
  refine ⟨t, us, rfl, Token.string?_kind ht, hus, ?_, rfl⟩
  show (Rule.applyAll _ ss).name = _
  rw [applyAll_name]
  show name = t.content
  rw [Token.string?, if_pos (Token.string?_kind ht)] at ht
  exact (Option.some.inj ht).symm

end Block

end Eligibility
