import Eligibility.Proofs.Script.Leaves

/-!
# Reading conditions by their grammar

A chain of conditions is read operand by operand, and what follows an operand either joins another
one or ends the chain.

* `goOn`, `Chain`: what follows an operand, and readers of chains;
* **`Chain.judges`**: a reader of chains judges what its operands judge;
* `Reads`, **`Derives.reads`**: a derivation is read whatever ends it;
* `judges_primary`, `judges_unary`, **`judges_condition`**: what is read is derived, and where
  reading stops no derivation goes on;
* **`spec_condition`**: conditions are read by their grammar.
-/

namespace Eligibility

open Reader

/-! ## What follows an operand -/

section GoOn

/-- The rest of a chain after a token that joins, or the end of the chain. -/
def others (read : Option Condition → Reader Condition) (c : Condition) :
    Option Unit → Reader Condition
  | none => pure c
  | some _ => lines >>= fun _ => read (some c)

/-- What follows an operand of a chain. -/
def goOn (k : TokenKind) (read : Option Condition → Reader Condition) (c : Condition) :
    Reader Condition :=
  option true (Token.ofKind? k) >>= others read c

variable {k : TokenKind} {read : Option Condition → Reader Condition} {c : Condition}
  {ks bs ts rest : List Token}

theorem goOn_eq_ok (h : ∀ t ∈ (sight rest).beyond, t.kind ≠ k) :
    goOn k read c rest = .ok (c, rest) :=
  bind_ok_iff.2 ⟨none, rest, optional_eq_none h, rfl⟩

theorem goOn_eq_read (hk : k ≠ .newline) (hks : Sees true (·.kind = k) ks) (hbs : Lines bs) :
    goOn k read c (ks ++ (bs ++ ts)) = read (some c) (dropNewlines ts) := by
  show option true _ _ >>= (fun q => others read c q.1 q.2) = _
  rw [optional_eq_some hk hks]
  show read (some c) (dropNewlines (bs ++ ts)) = _
  rw [dropNewlines_append hbs]

/-- An operand may end the chain, so line breaks do not settle what follows it. -/
theorem settles_goOn {f : Sight → Prop} : (goOn k read c).Settles f := by
  refine settles_of_lines fun bs hbs => ⟨[], (c, bs ++ []), goOn_eq_ok ?_⟩
  have hbeyond : (sight (bs ++ [])).beyond = none :=
    congrArg List.head? (dropNewlines_append hbs [])
  rw [hbeyond]
  exact nofun

end GoOn

/-! ## Chains -/

/-- A reader of chains of operands that fold to the left: the operands with their sentences `g` and
what may follow them, the chains with their sentences `g'`. -/
structure Chain (k : TokenKind) (join : Condition → Condition → Condition)
    (operand : Reader Condition) (g : Sentences Condition) (f : Follow Condition)
    (read : Option Condition → Reader Condition) (g' : Sentences Condition)
    (f' : Follow Condition) : Prop where
  kind : k ≠ .newline
  read_eq : ∀ left, read left = operand >>= fun c => goOn k read (chain join left c)
  complete : operand.Complete g f
  possible : ∃ us c, g us c
  one : ∀ us c, g us c → g' us c
  more : ∀ us a ks bs ws b, g' us a → Sees true (·.kind = k) ks → Lines bs → g ws b →
    g' (us ++ (ks ++ (bs ++ ws))) (join a b)
  ends : ∀ left c s, f c s → (∀ t ∈ s.beyond, t.kind ≠ k) → f' (chain join left c) s

/-- The tokens write the part of a chain before an operand. -/
def Leads (k : TokenKind) (g : Sentences Condition) : Option Condition → List Token → Prop
  | none, us => us = []
  | some a, us => ∃ vs ks bs, us = vs ++ (ks ++ bs) ∧ g vs a ∧ Sees true (·.kind = k) ks ∧ Lines bs

section Chain

variable {k : TokenKind} {join : Condition → Condition → Condition} {operand : Reader Condition}
  {g g' : Sentences Condition} {f f' : Follow Condition}
  {read : Option Condition → Reader Condition}

theorem Chain.append (h : Chain k join operand g f read g' f') {left : Option Condition}
    {us vs : List Token} {c : Condition} (hl : Leads k g' left us) (hc : g vs c) :
    g' (us ++ vs) (chain join left c) := by
  cases left with
  | none =>
    obtain rfl := hl
    exact h.one vs c hc
  | some a =>
    obtain ⟨ws, ks, bs, rfl, ha, hk, hbs⟩ := hl
    have := h.more ws a ks bs vs c ha hk hbs hc
    simpa [chain] using this

/-- A reader of chains judges as many tokens as the reader of its operands does. -/
theorem Chain.judges (h : Chain k join operand g f read g' f') {left : Option Condition}
    {us ts : List Token} (hl : Leads k g' left us)
    (ho : ∀ ws, ws.length ≤ ts.length → operand.Judges g f ws) :
    (read left).Judges (fun ws c => g' (us ++ ws) c) f' ts := by
  rw [h.read_eq]
  refine (ho ts (Nat.le_refl _)).bind h.complete (fun vs c mid hts hc hf => ?_)
    (fun vs c hc => ⟨[], _, by rw [List.append_nil]; exact h.append hl hc⟩) fun _ => settles_goOn
  have hone := h.append hl hc
  refine judges_optional h.kind (fun hno => ?_) (fun ks more hmid hk => ?_) (settles_pure _ _)
  · exact judges_pure (by rwa [List.append_nil]) (h.ends left c _ hf hno)
  · refine (spec_lines.judges more).bind spec_lines.complete (fun bs _ more' hmore hbs _ => ?_)
      (fun bs _ hbs => ?_) fun _ => settles_next (p := fun o => ∀ t ∈ o, t.kind ≠ .newline) _
    · -- the other operands are read off fewer tokens
      have hlt : more'.length < ts.length := by
        have := hk.length_pos
        rw [hts, hmid, hmore]
        simp only [List.length_append]
        omega
      have hlead : Leads k g' (some (chain join left c)) (us ++ vs ++ (ks ++ bs)) :=
        ⟨us ++ vs, ks, bs, rfl, hone, hk, hbs⟩
      refine (h.judges hlead fun ws hws => ho ws (by omega)).mono (fun ws d hd => ?_)
        fun _ _ _ _ _ hf => hf
      simpa using hd
    · obtain ⟨ws, b, hb⟩ := h.possible
      have := h.more _ _ ks bs ws b hone hk hbs hb
      exact ⟨ws, _, by simpa using this⟩
termination_by ts.length

end Chain

/-! ## Readers of conditions -/

section Equations

/-- The reader of an operand after its negation, if any. -/
def afterNot (nested : Bool) : Option Unit → Reader Condition
  | none => of (readPrimary nested)
  | some _ => of (readPrimary nested) >>= fun c => pure (.not c)

theorem of_readUnary (nested : Bool) :
    of (readUnary nested) = option nested (Token.ofKind? .not) >>= afterNot nested := by
  funext ts
  rw [of, readUnary.eq_def]
  show _ = option nested _ ts >>= fun q => afterNot nested q.1 q.2
  unfold option
  cases next? nested (Token.ofKind? .not) ts with
  | none => rfl
  | some o =>
    show _ = (of (readPrimary nested) >>= fun c => pure (Condition.not c)) o.rest
    exact outcome_bind rfl fun c => rfl

theorem of_readAnd (nested : Bool) (left : Option Condition) :
    of (readAnd nested left) = of (readUnary nested) >>= fun c =>
      goOn .and (fun l => of (readAnd nested l)) (chain .and left c) := by
  refine of_bind (readAnd.eq_def nested left) fun ts c => ?_
  show _ = option true _ c.rest >>= fun q => others _ _ q.1 q.2
  unfold option
  cases next? true (Token.ofKind? .and) c.rest with
  | none => rfl
  | some o =>
    show Reading.outcome (readAnd nested _ _ >>= _) = (readAnd nested _ _).outcome
    cases readAnd nested (some (chain .and left c.value)) (dropNewlines o.rest) <;> rfl

theorem of_readOr (nested : Bool) (left : Option Condition) :
    of (readOr nested left) = of (readAnd nested none) >>= fun c =>
      goOn .or (fun l => of (readOr nested l)) (chain .or left c) := by
  refine of_bind (readOr.eq_def nested left) fun ts c => ?_
  show _ = option true _ c.rest >>= fun q => others _ _ q.1 q.2
  unfold option
  cases next? true (Token.ofKind? .or) c.rest with
  | none => rfl
  | some o =>
    show Reading.outcome (readOr nested _ _ >>= _) = (readOr nested _ _).outcome
    cases readOr nested (some (chain .or left c.value)) (dropNewlines o.rest) <;> rfl

/-- The reader of a primary condition after its first token. -/
def opened (nested : Bool) : Opening → Reader Condition
  | .group => of (readOr true none) >>= fun c =>
      of (expect true (Token.ofKind? .rightParen) .closeGroup) >>= fun _ => pure (.group c)
  | .call f p => of (readCall nested f p) >>= fun l => pure (.leaf l)
  | .field id p => of (readComparison nested id p)

theorem of_readPrimary (nested : Bool) :
    of (readPrimary nested) = of (expect true Token.opening? .condition) >>= opened nested := by
  refine of_bind (readPrimary.eq_def nested) fun ts o => ?_
  obtain ⟨o, rest, hlt⟩ := o
  cases o with
  | group =>
    show _ = (of (readOr true none) >>= _) rest
    exact outcome_bind rfl fun c => outcome_bind rfl fun _ => rfl
  | call f p =>
    show _ = (of (readCall nested f p) >>= _) rest
    exact outcome_bind rfl fun l => rfl
  | field id p => exact outcome_widen _ _

end Equations

/-! ## Openings -/

/-- The first token of a primary condition. -/
inductive Token.Opens (t : Token) : Opening → Prop
  | group (hk : t.kind = .leftParen) : t.Opens .group
  | call {f : GridFunction} (hk : t.kind = .function f) : t.Opens (.call f t.position)
  | field (hk : t.kind = .identifier) : t.Opens (.field t.text t.position)

section Opens

variable {nested drop : Bool} {us ks ts rest : List Token} {t : Token} {c : Condition}

theorem Token.opening?_eq_some {o : Opening} : t.opening? = some o ↔ t.Opens o := by
  constructor
  · intro h
    unfold Token.opening? at h
    split at h
    · cases h; exact .group ‹_›
    · cases h; exact .call ‹_›
    · cases h; exact .field ‹_›
    · cases h
  · intro h
    cases h with
    | group hk | call hk | field hk => rw [Token.opening?, hk]

theorem Token.Opens.kind_ne {o : Opening} (h : t.Opens o) :
    t.kind ≠ .newline ∧ t.kind ≠ .not := by
  cases h <;> simp [*]

theorem spec_opening :
    (of (expect true Token.opening? .condition)).Spec (fun us o => Sees true (·.Opens o) us)
      anything :=
  spec_expect (fun _ _ => Token.opening?_eq_some) (fun _ _ h => h.kind_ne.1)
    ⟨⟨.leftParen, "", {}⟩, _, .group rfl⟩

/-- What follows the first token of a primary condition. -/
def WritesOpened (nested : Bool) : Opening → Sentences Condition
  | .group => fun us c => ∃ vs ks d, us = vs ++ ks ∧ Derives .disjunction true vs d ∧
      Sees true (·.kind = .rightParen) ks ∧ c = .group d
  | .call f p => fun us c => ∃ call, WritesCall nested f p us call ∧ c = .leaf (.call call)
  | .field id p => WritesComparison nested id p

theorem sees_group : Sees true (·.Opens .group) ks ↔ Sees true (·.kind = .leftParen) ks :=
  ⟨fun h => h.imp fun _ h => by cases h; assumption, fun h => h.imp fun _ => .group⟩

theorem sees_call {f : GridFunction} {p : Position} :
    Sees true (·.Opens (.call f p)) ks ↔
      Sees true (fun t => t.kind = .function f ∧ t.position = p) ks := by
  refine ⟨fun h => h.imp fun _ h => ?_, fun h => h.imp ?_⟩
  · cases h
    exact ⟨‹_›, rfl⟩
  · rintro t ⟨hk, rfl⟩
    exact .call hk

theorem sees_field {id : String} {p : Position} :
    Sees true (·.Opens (.field id p)) ks ↔
      Sees true (fun t => t.IsField id ∧ t.position = p) ks := by
  refine ⟨fun h => h.imp fun _ h => ?_, fun h => h.imp ?_⟩
  · cases h
    exact ⟨⟨‹_›, rfl⟩, rfl⟩
  · rintro t ⟨⟨hk, rfl⟩, rfl⟩
    exact .field hk

/-- A primary condition is its first token and what follows it. -/
theorem derives_primary_iff : Derives .primary nested us c ↔
    ∃ ks o ws, us = ks ++ ws ∧ Sees true (·.Opens o) ks ∧ WritesOpened nested o ws c := by
  constructor
  · intro h
    cases h with
    | comparison hf ht => exact ⟨_, _, _, rfl, sees_field.2 hf, .plain ht⟩
    | excluded hf hk hl => exact ⟨_, _, _, rfl, sees_field.2 hf, .excluded hk hl⟩
    | call hf hc => exact ⟨_, _, _, rfl, sees_call.2 hf, _, hc, rfl⟩
    | group ho h hk => exact ⟨_, _, _, rfl, sees_group.2 ho, _, _, _, rfl, h, hk, rfl⟩
  · rintro ⟨ks, o, ws, rfl, ho, h⟩
    cases o with
    | group =>
      obtain ⟨vs, ks, d, rfl, hd, hk, rfl⟩ := h
      exact .group (sees_group.1 ho) hd hk
    | call f p =>
      obtain ⟨call, hc, rfl⟩ := h
      exact .call (sees_call.1 ho) hc
    | field id p =>
      cases h with
      | plain ht => exact .comparison (sees_field.1 ho) ht
      | excluded hk hl => exact .excluded (sees_field.1 ho) hk hl

end Opens

/-! ## Derivations are read -/

/-- How a condition is read, by its level. -/
def Reads : Level → Bool → List Token → Condition → Prop
  | .primary, nested, us, c => ∀ rest, EndsCall nested c (sight rest) →
      of (readPrimary nested) (us ++ rest) = .ok (c, rest)
  | .unary, nested, us, c => ∀ drop rest, EndsCall nested c (sight rest) →
      of (readUnary nested) (ahead drop (us ++ rest)) = .ok (c, rest)
  | .conjunction, nested, us, c => ∀ drop rest, EndsCall nested c (sight rest) →
      of (readAnd nested none) (ahead drop (us ++ rest)) =
        goOn .and (fun l => of (readAnd nested l)) c rest
  | .disjunction, nested, us, c => ∀ drop rest, EndsCall nested c (sight rest) →
      (∀ t ∈ (sight rest).beyond, t.kind ≠ .and) →
      of (readOr nested none) (ahead drop (us ++ rest)) =
        goOn .or (fun l => of (readOr nested l)) c rest

section Reads

variable {nested : Bool} {us ks bs ws ts rest : List Token} {c a b : Condition} {k : TokenKind}

theorem Sees.endsCall (h : Sees true (·.kind = k) ks) (hk : k ≠ .newline) (hb : k.binary? = none)
    (nested : Bool) (c : Condition) (ts : List Token) : EndsCall nested c (sight (ks ++ ts)) := by
  rintro - t ht
  rcases h.seen (fun _ ht => ht ▸ hk) nested ts t ht with ht | ht
  · rw [ht, hb]
  · rw [ht]
    rfl

theorem readPrimary_ahead {q : Condition × List Token} (drop : Bool)
    (h : of (readPrimary nested) ts = .ok q) : of (readPrimary nested) (ahead drop ts) = .ok q := by
  rw [of_readPrimary] at h ⊢
  obtain ⟨o, mid, ho, hq⟩ := bind_ok_iff.1 h
  obtain ⟨us, rfl, hus, -⟩ := (spec_opening.judges ts).sound o mid ho
  obtain ⟨ks, hks, hsees⟩ := hus.ahead (fun _ ht => ht.kind_ne.1) drop mid
  rw [hks]
  exact bind_ok_iff.2 ⟨o, mid, spec_opening.complete ks o mid hsees trivial, hq⟩

theorem reads_plain (hd : Derives .primary nested us c) (h : Reads .primary nested us c) :
    Reads .unary nested us c := by
  intro drop rest hend
  have hprimary := readPrimary_ahead drop (h rest hend)
  obtain ⟨ks, o, ws, rfl, ho, -⟩ := derives_primary_iff.1 hd
  have hno : ∀ t ∈ (sight (ahead drop (ks ++ ws ++ rest))).seen nested, t.kind ≠ .not := by
    rw [List.append_assoc]
    obtain ⟨ks', hks, hsees⟩ := ho.ahead (fun _ ht => ht.kind_ne.1) drop (ws ++ rest)
    rw [hks]
    intro t ht
    rcases hsees.seen (fun _ ht => ht.kind_ne.1) nested _ t ht with ht | ht
    · exact ht.kind_ne.2
    · rw [ht]
      exact nofun
  rw [of_readUnary]
  exact bind_ok_iff.2 ⟨none, _, optional_eq_none hno, hprimary⟩

theorem reads_not (hk : Sees nested (·.kind = .not) ks) (h : Reads .primary nested us c) :
    Reads .unary nested (ks ++ us) (.not c) := by
  intro drop rest hend
  rw [List.append_assoc]
  obtain ⟨ks', hks, hsees⟩ := hk.ahead (fun _ ht => ht ▸ nofun) drop (us ++ rest)
  rw [hks, of_readUnary]
  exact bind_ok_iff.2 ⟨some (), us ++ rest, optional_eq_some (by decide) hsees,
    bind_ok_iff.2 ⟨c, rest, h rest hend, rfl⟩⟩

theorem readAnd_of_readUnary (left : Option Condition)
    (h : of (readUnary nested) ts = .ok (c, rest)) :
    of (readAnd nested left) ts =
      goOn .and (fun l => of (readAnd nested l)) (chain .and left c) rest := by
  rw [of_readAnd]
  show of (readUnary nested) ts >>= (fun q => _) = _
  rw [h]
  rfl

/-- A conjunction that nothing joins is an operand of a disjunction. -/
theorem readAnd_of_reads (drop : Bool) (h : Reads .conjunction nested us c)
    (hend : EndsCall nested c (sight rest)) (hno : ∀ t ∈ (sight rest).beyond, t.kind ≠ .and) :
    of (readAnd nested none) (ahead drop (us ++ rest)) = .ok (c, rest) :=
  (h drop rest hend).trans (goOn_eq_ok hno)

theorem readOr_of_readAnd (left : Option Condition)
    (h : of (readAnd nested none) ts = .ok (c, rest)) :
    of (readOr nested left) ts =
      goOn .or (fun l => of (readOr nested l)) (chain .or left c) rest := by
  rw [of_readOr]
  show of (readAnd nested none) ts >>= (fun q => _) = _
  rw [h]
  rfl

theorem reads_opened {o : Opening} (ho : Sees true (·.Opens o) us)
    (h : opened nested o ts = .ok (c, rest)) :
    of (readPrimary nested) (us ++ ts) = .ok (c, rest) := by
  rw [of_readPrimary]
  exact bind_ok_iff.2 ⟨o, ts, spec_opening.complete us o ts ho trivial, h⟩

theorem reads_group {os : List Token} (ho : Sees true (·.kind = .leftParen) os)
    (h : Reads .disjunction true us c) (hk : Sees true (·.kind = .rightParen) ks) :
    Reads .primary nested (os ++ (us ++ ks)) (.group c) := by
  intro rest _
  have hno (k : TokenKind) (hne : .rightParen ≠ k) :
      ∀ t ∈ (sight (ks ++ rest)).beyond, t.kind ≠ k := by
    intro t ht
    rw [hk.beyond (fun _ ht => ht ▸ nofun) rest t ht]
    exact hne
  have hor := (h false (ks ++ rest) (hk.endsCall (by decide) rfl _ _ _) (hno _ nofun)).trans
    (goOn_eq_ok (hno _ nofun))
  rw [List.append_assoc, List.append_assoc]
  refine reads_opened (sees_group.2 ho) (bind_ok_iff.2 ⟨c, ks ++ rest, hor, ?_⟩)
  exact bind_ok_iff.2 ⟨(), rest, (spec_kind (by decide)).complete ks () rest hk trivial, rfl⟩

/-- Every derivation is read, whatever ends it. -/
theorem Derives.reads {l : Level} (h : Derives l nested us c) : Reads l nested us c := by
  induction h with
  | comparison hf ht =>
    intro rest _
    rw [List.append_assoc]
    exact reads_opened (sees_field.2 hf)
      ((spec_comparison _ _ _).complete _ _ rest (.plain ht) trivial)
  | excluded hf hk hl =>
    intro rest _
    rw [List.append_assoc]
    exact reads_opened (sees_field.2 hf)
      ((spec_comparison _ _ _).complete _ _ rest (.excluded hk hl) trivial)
  | call hf hc =>
    intro rest hend
    rw [List.append_assoc]
    exact reads_opened (sees_call.2 hf)
      (bind_ok_iff.2 ⟨_, rest, (spec_call _ _ _).complete _ _ rest ⟨_, hc, rfl⟩ hend, rfl⟩)
  | group ho h hk ih => exact reads_group ho ih hk
  | plain h ih => exact reads_plain h ih
  | not hk h ih => exact reads_not hk ih
  | operand h ih =>
    exact fun drop rest hend => readAnd_of_readUnary none (ih drop rest hend)
  | and ha hk hbs hb iha ihb =>
    intro drop rest hend
    simp only [List.append_assoc]
    rw [iha drop _ (hk.endsCall (by decide) rfl _ _ _), goOn_eq_read (by decide) hk hbs]
    exact readAnd_of_readUnary _ (ihb true rest hend)
  | clause h ih =>
    exact fun drop rest hend hno => readOr_of_readAnd none (readAnd_of_reads drop ih hend hno)
  | or ha hk hbs hb iha ihb =>
    intro drop rest hend hno
    simp only [List.append_assoc]
    have hbeyond := hk.beyond fun _ ht => ht ▸ nofun
    have hand (ts : List Token) : ∀ t ∈ (sight (_ ++ ts)).beyond, t.kind ≠ .and :=
      fun t ht => by rw [hbeyond ts t ht]; exact nofun
    rw [iha drop _ (hk.endsCall (by decide) rfl _ _ _) (hand _), goOn_eq_read (by decide) hk hbs]
    exact readOr_of_readAnd _ (readAnd_of_reads true ihb hend hno)

theorem readOr_of_derives (drop : Bool) (h : Derives .disjunction nested us c)
    (hend : Ends nested c (sight rest)) :
    of (readOr nested none) (ahead drop (us ++ rest)) = .ok (c, rest) :=
  (h.reads drop rest hend.1 fun t ht => (hend.2 t ht).1).trans
    (goOn_eq_ok fun t ht => (hend.2 t ht).2)

theorem complete_condition (nested : Bool) :
    (of (readOr nested none)).Complete (Derives .disjunction nested) (Ends nested) :=
  fun _ _ _ h hend => readOr_of_derives false h hend

end Reads

/-! ## What is read is derived -/

section Judges

variable {nested : Bool} {us ts : List Token}

/-- No comparison and no operand can go on with the conjunction. -/
def EndsAnd (nested : Bool) : Follow Condition :=
  fun c s => EndsCall nested c s ∧ ∀ t ∈ s.beyond, t.kind ≠ .and

theorem complete_unary (nested : Bool) :
    (of (readUnary nested)).Complete (Derives .unary nested) (EndsCall nested) :=
  fun _ _ rest h hend => h.reads false rest hend

theorem complete_and (nested : Bool) :
    (of (readAnd nested none)).Complete (Derives .conjunction nested) (EndsAnd nested) :=
  fun _ _ _ h hend => readAnd_of_reads false h.reads hend.1 hend.2

/-- A field that is empty. -/
theorem exists_primary (nested : Bool) : ∃ us c, Derives .primary nested us c := by
  have hfield : Sees true (fun t => t.IsField "" ∧ t.position = {}) [⟨.identifier, "", {}⟩] :=
    Sees.one ⟨⟨rfl, rfl⟩, rfl⟩
  have hempty : Sees nested (·.kind = .comparison .isEmpty) [⟨.comparison .isEmpty, "", {}⟩] :=
    Sees.one rfl
  exact ⟨_, _, .comparison hfield (.isEmpty hempty)⟩

theorem sees_close : Sees true (·.kind = .rightParen) [⟨.rightParen, "", {}⟩] := Sees.one rfl

theorem endsCall_chain (join : Condition → Condition → Condition)
    (hj : ∀ a c, (join a c).endsInCall = c.endsInCall) {left : Option Condition} {c : Condition}
    {s : Sight} (h : EndsCall nested c s) : EndsCall nested (chain join left c) s := by
  cases left with
  | none => exact h
  | some a =>
    rw [EndsCall, chain, hj]
    exact h

theorem chain_and (nested : Bool) :
    Chain .and .and (of (readUnary nested)) (Derives .unary nested) (EndsCall nested)
      (fun l => of (readAnd nested l)) (Derives .conjunction nested) (EndsAnd nested) where
  kind := nofun
  read_eq := of_readAnd nested
  complete := complete_unary nested
  possible := by
    obtain ⟨us, c, h⟩ := exists_primary nested
    exact ⟨us, c, .plain h⟩
  one _ _ h := .operand h
  more _ _ _ _ _ _ ha hk hbs hb := .and ha hk hbs hb
  ends _ _ _ h hno := ⟨endsCall_chain .and (fun _ _ => rfl) h, hno⟩

theorem chain_or (nested : Bool) :
    Chain .or .or (of (readAnd nested none)) (Derives .conjunction nested) (EndsAnd nested)
      (fun l => of (readOr nested l)) (Derives .disjunction nested) (Ends nested) where
  kind := nofun
  read_eq := of_readOr nested
  complete := complete_and nested
  possible := by
    obtain ⟨us, c, h⟩ := exists_primary nested
    exact ⟨us, c, .operand (.plain h)⟩
  one _ _ h := .clause h
  more _ _ _ _ _ _ ha hk hbs hb := .or ha hk hbs hb
  ends _ _ _ h hno := ⟨endsCall_chain .or (fun _ _ => rfl) h.1, fun t ht => ⟨h.2 t ht, hno t ht⟩⟩

theorem exists_opened (nested : Bool) (o : Opening) : ∃ us c, WritesOpened nested o us c := by
  cases o with
  | group =>
    obtain ⟨us, c, h⟩ := exists_primary true
    exact ⟨_, .group c, us, _, c, rfl, .clause (.operand (.plain h)), sees_close, rfl⟩
  | call f p =>
    obtain ⟨us, _, call, h, -⟩ := (spec_call nested f p).possible
    exact ⟨us, _, call, h, rfl⟩
  | field id p => exact (spec_comparison nested id p).possible

theorem judges_opened (o : Opening)
    (h : (of (readOr true none)).Judges (Derives .disjunction true) (Ends true) ts) :
    (opened nested o).Judges (WritesOpened nested o) (EndsCall nested) ts := by
  cases o with
  | group =>
    have hparen : (of (expect true (Token.ofKind? .rightParen) .closeGroup)).Spec
        (fun us _ => Sees true (·.kind = .rightParen) us) anything := spec_kind (by decide)
    refine h.bind (complete_condition true) (fun vs c mid _ hc _ => ?_) (fun vs c hc => ?_)
      fun c => settles_close ⟨[], _, rfl⟩
    · have hclose := hparen.map (k := EndsCall nested) (fun _ => Condition.group c) fun _ _ =>
        iff_of_true nofun trivial
      refine (hclose.judges mid).mono ?_ fun _ _ _ _ _ hf => hf
      rintro ks _ ⟨_, hk, rfl⟩
      exact ⟨vs, ks, c, rfl, hc, hk, rfl⟩
    · exact ⟨_, .group c, vs, _, c, rfl, hc, sees_close, rfl⟩
  | call f p =>
    have hcall :=
      (spec_call nested f p).map (k := EndsCall nested) Condition.leaf fun _ _ => Iff.rfl
    refine (hcall.judges ts).mono ?_ fun _ _ _ _ _ hf => hf
    rintro us _ ⟨_, ⟨call, hc, rfl⟩, rfl⟩
    exact ⟨call, hc, rfl⟩
  | field id p =>
    refine ((spec_comparison nested id p).judges ts).mono (fun _ _ h => h) fun us c _ _ hc _ => ?_
    cases hc <;> exact nofun

/-- Readers of primary conditions judge what readers of conditions judge of fewer tokens. -/
theorem judges_primary (h : ∀ us, us.length < ts.length →
      (of (readOr true none)).Judges (Derives .disjunction true) (Ends true) us) :
    (of (readPrimary nested)).Judges (Derives .primary nested) (EndsCall nested) ts := by
  rw [of_readPrimary]
  refine (spec_opening.judges ts).bind spec_opening.complete (fun us o mid hts ho _ => ?_)
    (fun us o ho => ?_) fun _ => settles_anything _
  · have hlt : mid.length < ts.length := by
      have := ho.length_pos
      rw [hts, List.length_append]
      omega
    exact (judges_opened o (h mid hlt)).mono
      (fun ws c hc => derives_primary_iff.2 ⟨us, o, ws, rfl, ho, hc⟩) fun _ _ _ _ _ hf => hf
  · obtain ⟨ws, c, hc⟩ := exists_opened nested o
    exact ⟨ws, c, derives_primary_iff.2 ⟨us, o, ws, rfl, ho, hc⟩⟩

theorem settles_readPrimary {f : Sight → Prop} : (of (readPrimary nested)).Settles f := by
  refine settles_of_lines fun bs hbs => ?_
  obtain ⟨us, c, hc⟩ := (spec_comparison nested "" {}).possible
  have hfield : Sees true (·.Opens (.field "" {})) (bs ++ [⟨.identifier, "", {}⟩]) :=
    ⟨bs, _, rfl, hbs, nofun, .field rfl⟩
  refine ⟨⟨.identifier, "", {}⟩ :: (us ++ []), (c, []), ?_⟩
  rw [List.append_cons]
  exact reads_opened hfield ((spec_comparison nested "" {}).complete us c [] hc trivial)

theorem judges_unary (h : ∀ us, us.length ≤ ts.length →
      (of (readPrimary nested)).Judges (Derives .primary nested) (EndsCall nested) us) :
    (of (readUnary nested)).Judges (Derives .unary nested) (EndsCall nested) ts := by
  rw [of_readUnary]
  refine judges_optional (by decide) (fun _ => ?_) (fun ks mid hts hk => ?_) ?_
  · exact (h ts (Nat.le_refl _)).mono (fun _ _ => .plain) fun _ _ _ _ _ hf => hf
  · have hprimary := h mid (by rw [hts, List.length_append]; omega)
    refine hprimary.bind (fun _ _ rest hc hend => hc.reads rest hend)
      (fun us c rest _ hc hf => judges_pure ?_ hf)
      (fun us c hc => ⟨[], _, by rw [List.append_nil]; exact .not hk hc⟩) fun _ => settles_pure _ _
    rw [List.append_nil]
    exact .not hk hc
  · exact settles_readPrimary

/-- What is read as a condition is one, and where reading stops no condition goes on. -/
theorem judges_condition (nested : Bool) (ts : List Token) :
    (of (readOr nested none)).Judges (Derives .disjunction nested) (Ends nested) ts := by
  have hleads {k : TokenKind} {g : Sentences Condition} : Leads k g none [] := rfl
  have hprimary : ∀ ws, ws.length ≤ ts.length →
      (of (readPrimary nested)).Judges (Derives .primary nested) (EndsCall nested) ws :=
    fun ws hws => judges_primary fun us hus => judges_condition true us
  have hand : ∀ ws, ws.length ≤ ts.length →
      (of (readAnd nested none)).Judges (Derives .conjunction nested) (EndsAnd nested) ws :=
    fun ws hws => (chain_and nested).judges hleads fun us hus =>
      judges_unary fun vs hvs => hprimary vs (by omega)
  exact (chain_or nested).judges hleads hand
termination_by ts.length

theorem spec_condition (nested : Bool) :
    (of (readOr nested none)).Spec (Derives .disjunction nested) (Ends nested) := by
  obtain ⟨us, c, h⟩ := exists_primary nested
  exact ⟨complete_condition nested, judges_condition nested, us, c, .clause (.operand (.plain h))⟩

end Judges

end Eligibility
