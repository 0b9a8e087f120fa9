import Eligibility.Proofs.Script.Chains

/-!
# Line breaks inside a condition

A line may break after `NOT`, before and after an `AND` or `OR` that joins two operands, and
anywhere inside parentheses.

* `Within`, `InRange`, `Joins`, `AsksOperand`, **`MayBreak`**: the places where a line may break;
* `Loosened`: tokens with line breaks at such places;
* `Shut`: the places inside a leaf, where no line may break;
* `WritesTest.loosened`, `WritesCall.loosened`, **`Derives.lasting`**: line breaks at such places
  change nothing of what is written;
* **`readOr_loosened`**: the reader of conditions answers as before.
-/

namespace Eligibility

/-! ## Where a line may break -/

/-- More parentheses are open than closed. -/
def Within (past : List Token) : Prop :=
  past.countP (·.kind = .rightParen) < past.countP (·.kind = .leftParen)

/-- Every open parenthesis is closed. -/
def Outside (past : List Token) : Prop :=
  past.countP (·.kind = .rightParen) = past.countP (·.kind = .leftParen)

/-- The last token but one is `BETWEEN`, and an `AND` would be the one of the range. -/
def InRange (past : List Token) : Prop :=
  past.dropLast.getLast?.map Token.kind = some (.comparison .between)

/-- The token joins the condition behind it to another one. -/
def Joins (past : List Token) (t : Token) : Prop := t.kind = .or ∨ t.kind = .and ∧ ¬ InRange past

/-- The last token is a logical operator, and its operand is due. -/
def AsksOperand (past : List Token) : Prop :=
  ∃ u ∈ past.getLast?, u.kind = .not ∨ Joins past.dropLast u

/-- Between the tokens `past` and the token `t` a line may break. -/
def MayBreak (past : List Token) (t : Token) : Prop := Within past ∨ AsksOperand past ∨ Joins past t

instance (past : List Token) : Decidable (Within past) := inferInstanceAs (Decidable (_ < _))

instance (past : List Token) : Decidable (InRange past) := inferInstanceAs (Decidable (_ = _))

instance (past : List Token) (t : Token) : Decidable (Joins past t) :=
  inferInstanceAs (Decidable (_ ∨ _ ∧ ¬ _))

instance (past : List Token) : Decidable (AsksOperand past) :=
  inferInstanceAs (Decidable (∃ u ∈ past.getLast?, u.kind = .not ∨ Joins past.dropLast u))

instance (past : List Token) (t : Token) : Decidable (MayBreak past t) :=
  inferInstanceAs (Decidable (_ ∨ _ ∨ _))

/-- After the tokens `past`, the tokens `us'` are the tokens `us` with line breaks where a line may
break. -/
inductive Loosened : (past us us' : List Token) → Prop
  | nil {past : List Token} : Loosened past [] []
  | cons {past bs us us' : List Token} {t : Token} (hbs : Lines bs) (hb : bs ≠ [] → MayBreak past t)
      (h : Loosened (past ++ [t]) us us') : Loosened past (t :: us) (bs ++ t :: us')

section Loosened

variable {past us vs us' ws : List Token} {t : Token}

theorem Loosened.append (h : Loosened past (us ++ vs) ws) :
    ∃ us' vs', ws = us' ++ vs' ∧ Loosened past us us' ∧ Loosened (past ++ us) vs vs' := by
  induction us generalizing past ws with
  | nil => exact ⟨[], ws, rfl, .nil, by rwa [List.append_nil]⟩
  | cons t us ih =>
    obtain - | ⟨hbs, hb, h⟩ := h
    obtain ⟨us', vs', rfl, hus, hvs⟩ := ih h
    refine ⟨_, vs', ?_, .cons hbs hb hus, by rwa [List.append_cons]⟩
    rw [List.append_assoc, List.cons_append]

theorem Loosened.lines (h : Loosened past us us') (hus : Lines us) : Lines us' := by
  induction h with
  | nil => exact hus
  | cons hbs _ _ ih =>
    obtain ⟨ht, hus⟩ := List.forall_mem_cons.1 hus
    exact List.forall_mem_append.2 ⟨hbs, List.forall_mem_cons.2 ⟨ht, ih hus⟩⟩

theorem Loosened.one (h : Loosened past [t] us') :
    ∃ bs, us' = bs ++ [t] ∧ Lines bs ∧ (bs ≠ [] → MayBreak past t) := by
  obtain - | ⟨hbs, hb, h⟩ := h
  obtain - | _ := h
  exact ⟨_, rfl, hbs, hb⟩

/-- One token, where the reader looks past line breaks or no line may break. -/
theorem Sees.loosened_of {nested : Bool} {P : Token → Prop} (h : Sees nested P us)
    (hl : Loosened past us us') (hm : nested = false → ∀ t, P t → ¬ MayBreak past t) :
    Sees nested P us' := by
  obtain ⟨bs, t, rfl, hbs, hn, ht⟩ := h
  obtain ⟨bs', ws, rfl, hbs', hws⟩ := hl.append
  obtain ⟨cs, rfl, hcs, hc⟩ := hws.one
  refine ⟨bs' ++ cs, t, (List.append_assoc _ _ _).symm, ?_, fun hf => ?_, ht⟩
  · exact List.forall_mem_append.2 ⟨hbs'.lines hbs, hcs⟩
  · obtain rfl := hn hf
    obtain - | _ := hbs'
    rw [List.append_nil] at hc
    exact Decidable.not_not.1 fun hne => hm hf t ht (hc hne)

theorem Sees.eq_one {P : Token → Prop} (h : Sees false P us) : ∃ t, us = [t] ∧ P t := by
  obtain ⟨bs, t, rfl, -, hn, ht⟩ := h
  obtain rfl := hn rfl
  exact ⟨t, rfl, ht⟩

theorem Sees.loosened_nested {P : Token → Prop} (h : Sees true P us) (hl : Loosened past us us') :
    Sees true P us' :=
  h.loosened_of hl nofun

end Loosened

/-! ## Where no line may break -/

/-- Outside of parentheses, and no operand is due. -/
structure Shut (past : List Token) : Prop where
  outside : Outside past
  settled : ¬ AsksOperand past

section Shut

variable {nested : Bool} {past us us' : List Token} {t : Token} {P : Token → Prop}

theorem Shut.not_mayBreak (h : Shut past) (ht : ¬ Joins past t) : ¬ MayBreak past t := by
  rintro (hw | ha | hj)
  · exact Nat.ne_of_lt hw h.outside
  · exact h.settled ha
  · exact ht hj

theorem not_joins (h : t.kind.isLogical = false) : ¬ Joins past t := by
  rintro (hk | ⟨hk, -⟩) <;> rw [hk] at h <;> cases h

theorem Token.Denotes.isLogical {v : Value} (h : t.Denotes v) : t.kind.isLogical = false := by
  cases h <;> simp [*, TokenKind.isLogical]

theorem Outside.append_bracketed (hp : Outside past) (h : Bracketed us) : Outside (past ++ us) := by
  unfold Outside at *
  rw [List.countP_append, List.countP_append, hp, Nat.add_left_cancel_iff]
  clear hp
  induction h with
  | nil => rfl
  | @cons t us ht _ ih =>
    have hne (k : TokenKind) (hk : k.isClausal = false) : ¬ (t.kind = k) := by
      rintro rfl
      exact nomatch ht.symm.trans hk
    rw [List.countP_cons_of_neg (by simpa using hne _ rfl),
      List.countP_cons_of_neg (by simpa using hne _ rfl), ih]
  | parens ho _ hk _ ihu ihv =>
    simp [ho, hk, ihu, ihv]
    omega

/-- After tokens with no open parenthesis, the last of them no logical operator. -/
theorem Outside.shut (hp : Outside past) {vs : List Token} (h : Bracketed (vs ++ [t]))
    (ht : t.kind.isLogical = false) : Shut (past ++ (vs ++ [t])) := by
  refine ⟨hp.append_bracketed h, ?_⟩
  rw [← List.append_assoc]
  rintro ⟨u, hu, hask⟩
  rw [List.getLast?_concat] at hu
  cases hu
  rcases hask with hk | hj
  · rw [hk] at ht
    cases ht
  · exact not_joins ht hj

theorem Outside.shut_sees (hp : Outside past) (h : Sees nested P us)
    (hc : ∀ t, P t → t.kind.isClausal = true) (hl : ∀ t, P t → t.kind.isLogical = false) :
    Shut (past ++ us) := by
  have hus := h.bracketed hc
  obtain ⟨bs, t, rfl, -, -, ht⟩ := h
  exact hp.shut hus (hl t ht)

theorem Outside.shut_value (hp : Outside past) {v : Value} (h : Sees nested (·.Denotes v) us) :
    Shut (past ++ us) := by
  have hus := Sees.bracketed_value h
  obtain ⟨bs, t, rfl, -, -, ht⟩ := h
  exact hp.shut hus ht.isLogical

theorem Outside.shut_enclosed (hp : Outside past) {os ks : List Token}
    (ho : Sees nested (·.kind = .leftParen) os) (hus : Bracketed us)
    (hk : Sees true (·.kind = .rightParen) ks) : Shut (past ++ os ++ us ++ ks) := by
  have hall := Bracketed.enclosed ho hus hk
  obtain ⟨bs, k, rfl, -, -, hk⟩ := hk
  have happend : os ++ (us ++ (bs ++ [k])) = os ++ us ++ bs ++ [k] := by simp
  rw [happend] at hall
  have hshut := hp.shut hall (by rw [hk]; rfl)
  simpa only [List.append_assoc] using hshut

theorem Sees.loosened (h : Sees nested P us) (hl : Loosened past us us')
    (hs : nested = false → Shut past) (hp : ∀ t, P t → t.kind.isLogical = false) :
    Sees nested P us' :=
  h.loosened_of hl fun hf t ht => (hs hf).not_mayBreak (not_joins (hp t ht))

theorem Sees.loosened_value {v : Value} (h : Sees nested (·.Denotes v) us)
    (hl : Loosened past us us') (hs : nested = false → Shut past) : Sees nested (·.Denotes v) us' :=
  h.loosened hl hs fun _ ht => Token.Denotes.isLogical ht

theorem InRange.not_joins (h : InRange past) (ht : t.kind = .and) : ¬ Joins past t := by
  rintro (hk | ⟨-, hn⟩)
  · exact nomatch ht.symm.trans hk
  · exact hn h

theorem InRange.shut (h : InRange past) (hp : Outside past) (ht : t.kind = .and) :
    Shut (past ++ [t]) := by
  refine ⟨hp.append_bracketed (.cons (by rw [ht]; rfl) .nil), ?_⟩
  rintro ⟨u, hu, hask⟩
  rw [List.getLast?_concat] at hu
  cases hu
  rw [List.dropLast_concat] at hask
  rcases hask with hk | hj
  · exact nomatch ht.symm.trans hk
  · exact h.not_joins ht hj

theorem shut_range (hp : Outside past) {ls : List Token} {v : Value}
    (h : Sees false (·.kind = .comparison .between) us) (hl : Sees false (·.Denotes v) ls) :
    Shut (past ++ us ++ ls) ∧ InRange (past ++ us ++ ls) := by
  refine ⟨(hp.append_bracketed (h.bracketed_kind rfl)).shut_value hl, ?_⟩
  obtain ⟨b, rfl, hb⟩ := h.eq_one
  obtain ⟨t, rfl, -⟩ := hl.eq_one
  rw [InRange, List.dropLast_concat, List.getLast?_concat, Option.map_some, hb]

end Shut

/-! ## Leaves -/

section Leaf

variable {nested : Bool} {past us us' : List Token}

theorem WritesValues.loosened {vs : List Value} (h : WritesValues us vs)
    (hl : Loosened past us us') : WritesValues us' vs := by
  induction h generalizing past us' with
  | one hv => exact .one (hv.loosened_nested hl)
  | more hv hk _ ih =>
    obtain ⟨us', r, rfl, hl₁, hr⟩ := hl.append
    obtain ⟨ks', ws', rfl, hl₂, hl₃⟩ := hr.append
    exact .more (hv.loosened_nested hl₁) (hk.loosened_nested hl₂) (ih hl₃)

theorem WritesList.loosened {vs : List Value} (h : WritesList nested us vs)
    (hl : Loosened past us us') (hs : nested = false → Shut past) : WritesList nested us' vs := by
  obtain ⟨ho, h, hk⟩ := h
  obtain ⟨os', r, rfl, hl₁, hr⟩ := hl.append
  obtain ⟨us', ks', rfl, hl₂, hl₃⟩ := hr.append
  exact ⟨ho.loosened hl₁ hs fun _ ht => ht ▸ rfl, h.loosened hl₂, hk.loosened_nested hl₃⟩

theorem WritesTest.loosened {op : Operator} {o : Operand} (h : WritesTest nested us op o)
    (hl : Loosened past us us') (hs : nested = false → Shut past) :
    WritesTest nested us' op o := by
  have hnext {op : Operator} {us : List Token} (h : Sees nested (·.kind = .comparison op) us)
      (hf : nested = false) : Shut (past ++ us) :=
    (hs hf).outside.shut_sees h (fun _ ht => ht ▸ rfl) fun _ ht => ht ▸ rfl
  cases h with
  | isEmpty h => exact .isEmpty (h.loosened hl hs fun _ ht => ht ▸ rfl)
  | isNotEmpty h => exact .isNotEmpty (h.loosened hl hs fun _ ht => ht ▸ rfl)
  | @between bs ls _ _ _ _ h hlow hand hhigh =>
    obtain ⟨us', r, rfl, hl₁, hr⟩ := hl.append
    obtain ⟨ls', r, rfl, hl₂, hr⟩ := hr.append
    obtain ⟨ks', hs', rfl, hl₃, hl₄⟩ := hr.append
    have hrange (hf : nested = false) : Shut (past ++ bs ++ ls) ∧ InRange (past ++ bs ++ ls) := by
      subst hf
      exact shut_range (hs rfl).outside h hlow
    refine .between (h.loosened hl₁ hs fun _ ht => ht ▸ rfl) (hlow.loosened_value hl₂ (hnext h))
      (hand.loosened_of hl₃ fun hf a ha => ?_) (hhigh.loosened_value hl₄ fun hf => ?_)
    · exact (hrange hf).1.not_mayBreak ((hrange hf).2.not_joins ha)
    · obtain ⟨hshut, hin⟩ := hrange hf
      subst hf
      obtain ⟨a, rfl, ha⟩ := hand.eq_one
      exact hin.shut hshut.outside ha
  | isIn h hw =>
    obtain ⟨us', ws', rfl, hl₁, hl₂⟩ := hl.append
    exact .isIn (h.loosened hl₁ hs fun _ ht => ht ▸ rfl) (hw.loosened hl₂ (hnext h))
  | binary hop h hv =>
    obtain ⟨us', ws', rfl, hl₁, hl₂⟩ := hl.append
    exact .binary hop (h.loosened hl₁ hs fun _ ht => ht ▸ rfl) (hv.loosened_value hl₂ (hnext h))

theorem WritesCall.loosened {f : GridFunction} {p : Position} {call : FunctionCall}
    (h : WritesCall nested f p us call) (hl : Loosened past us us')
    (hs : nested = false → Shut past) : WritesCall nested f p us' call := by
  cases h with
  | total hf ho ht hk =>
    obtain ⟨os', r, rfl, hl₁, hr⟩ := hl.append
    obtain ⟨us', ks', rfl, hl₂, hl₃⟩ := hr.append
    exact .total hf (ho.loosened hl₁ hs fun _ ht => ht ▸ rfl) (ht.loosened_nested hl₂)
      (hk.loosened_nested hl₃)
  | check hf ho ht hk =>
    obtain ⟨os', r, rfl, hl₁, hr⟩ := hl.append
    obtain ⟨us', ks', rfl, hl₂, hl₃⟩ := hr.append
    exact .check hf (ho.loosened hl₁ hs fun _ ht => ht ▸ rfl) (ht.loosened_nested hl₂)
      (hk.loosened_nested hl₃)
  | @compared os us ks ops _ _ _ _ hf ho ht hk hop hops hv =>
    obtain ⟨os', r, rfl, hl₁, hr⟩ := hl.append
    obtain ⟨us', r, rfl, hl₂, hr⟩ := hr.append
    obtain ⟨ks', r, rfl, hl₃, hr⟩ := hr.append
    obtain ⟨ops', vs', rfl, hl₄, hl₅⟩ := hr.append
    have hclosed (hf : nested = false) : Shut (past ++ os ++ us ++ ks) :=
      (hs hf).outside.shut_enclosed ho (Sees.bracketed_field ht) hk
    have hop' (hf : nested = false) : Shut (past ++ os ++ us ++ ks ++ ops) :=
      (hclosed hf).outside.shut_sees hops (fun _ ht => ht ▸ rfl) fun _ ht => ht ▸ rfl
    exact .compared hf (ho.loosened hl₁ hs fun _ ht => ht ▸ rfl) (ht.loosened_nested hl₂)
      (hk.loosened_nested hl₃) hop (hops.loosened hl₄ hclosed fun _ ht => ht ▸ rfl)
      (hv.loosened_value hl₅ hop')
  | listed hf ho ht hc hv hk =>
    obtain ⟨os', r, rfl, hl₁, hr⟩ := hl.append
    obtain ⟨us', r, rfl, hl₂, hr⟩ := hr.append
    obtain ⟨cs', r, rfl, hl₃, hr⟩ := hr.append
    obtain ⟨ws', ks', rfl, hl₄, hl₅⟩ := hr.append
    exact .listed hf (ho.loosened hl₁ hs fun _ ht => ht ▸ rfl) (ht.loosened_nested hl₂)
      (hc.loosened_nested hl₃) (hv.loosened hl₄) (hk.loosened_nested hl₅)

end Leaf

/-! ## Conditions -/

section Condition

variable {nested : Bool} {past us us' bs : List Token} {c : Condition} {level : Level}

/-- A primary condition may start on a later line, and so may any condition in parentheses. -/
theorem Derives.after_lines (h : Derives level nested us c)
    (hn : level = .primary ∨ nested = true) (hbs : Lines bs) :
    Derives level nested (bs ++ us) c := by
  induction h with
  | comparison hf ht =>
    rw [← List.append_assoc]
    exact .comparison (hf.after_lines hbs) ht
  | excluded hf hk hl =>
    rw [← List.append_assoc]
    exact .excluded (hf.after_lines hbs) hk hl
  | call hf hc =>
    rw [← List.append_assoc]
    exact .call (hf.after_lines hbs) hc
  | group ho h hk =>
    rw [← List.append_assoc]
    exact .group (ho.after_lines hbs) h hk
  | plain _ ih => exact .plain (ih (.inr (hn.resolve_left nofun)))
  | not hk h =>
    obtain rfl := hn.resolve_left nofun
    rw [← List.append_assoc]
    exact .not (hk.after_lines hbs) h
  | operand _ ih => exact .operand (ih (.inr (hn.resolve_left nofun)))
  | and _ hk hbs' hb ih =>
    rw [← List.append_assoc]
    exact .and (ih (.inr (hn.resolve_left nofun))) hk hbs' hb
  | clause _ ih => exact .clause (ih (.inr (hn.resolve_left nofun)))
  | or _ hk hbs' hb ih =>
    rw [← List.append_assoc]
    exact .or (ih (.inr (hn.resolve_left nofun))) hk hbs' hb

/-- A condition starts with a token that joins nothing. -/
theorem Derives.head (h : Derives level nested us c) :
    ∃ t ts, us = t :: ts ∧ t.kind ≠ .or ∧ t.kind ≠ .and := by
  have hsees {nested : Bool} {P : Token → Prop} {us : List Token} (h : Sees nested P us)
      (hP : ∀ t, P t → t.kind ≠ .or ∧ t.kind ≠ .and) (vs : List Token) :
      ∃ t ts, us ++ vs = t :: ts ∧ t.kind ≠ .or ∧ t.kind ≠ .and := by
    obtain ⟨bs, t, rfl, hbs, -, ht⟩ := h
    cases bs with
    | nil => exact ⟨t, vs, rfl, hP t ht⟩
    | cons b bs =>
      refine ⟨b, bs ++ [t] ++ vs, rfl, ?_⟩
      rw [hbs b List.mem_cons_self]
      exact ⟨nofun, nofun⟩
  have hmore {us : List Token} (h : ∃ t ts, us = t :: ts ∧ t.kind ≠ .or ∧ t.kind ≠ .and)
      (vs : List Token) : ∃ t ts, us ++ vs = t :: ts ∧ t.kind ≠ .or ∧ t.kind ≠ .and := by
    obtain ⟨t, ts, rfl, ht⟩ := h
    exact ⟨t, ts ++ vs, rfl, ht⟩
  induction h with
  | comparison hf | excluded hf =>
    exact hsees hf (fun t ht => by rw [ht.1.1]; exact ⟨nofun, nofun⟩) _
  | call hf => exact hsees hf (fun t ht => by rw [ht.1]; exact ⟨nofun, nofun⟩) _
  | group ho => exact hsees ho (fun t ht => by rw [ht]; exact ⟨nofun, nofun⟩) _
  | not hk => exact hsees hk (fun t ht => by rw [ht]; exact ⟨nofun, nofun⟩) _
  | plain _ ih | operand _ ih | clause _ ih => exact ih
  | and _ _ _ _ ih | or _ _ _ _ ih => exact hmore ih _

/-- Line breaks where a line may break change nothing of what the tokens write. Those before the
first token count as part of what comes before. -/
def Lasting (level : Level) (nested : Bool) (us : List Token) (c : Condition) : Prop :=
  ∀ past us', (nested = false → Outside past) → Loosened past us us' →
    ∃ bs us'', us' = bs ++ us'' ∧ Lines bs ∧ (bs ≠ [] → ∀ t ∈ us.head?, MayBreak past t) ∧
      Derives level nested us'' c

theorem Lasting.imp {level' : Level} (h : Lasting level nested us c)
    (hd : ∀ us, Derives level nested us c → Derives level' nested us c) :
    Lasting level' nested us c := by
  intro past us' hp hl
  obtain ⟨bs, us'', rfl, hbs, hb, h⟩ := h past us' hp hl
  exact ⟨bs, us'', rfl, hbs, hb, hd us'' h⟩

theorem lasting_primary (h : ∀ past us', (nested = false → Outside past) → Loosened past us us' →
    Derives .primary nested us' c) : Lasting .primary nested us c :=
  fun past us' hp hl => ⟨[], us', rfl, Lines.nil, fun h => absurd rfl h, h past us' hp hl⟩

theorem lasting_not {ks : List Token} (hk : Sees nested (·.kind = .not) ks)
    (h : Lasting .primary nested us c) : Lasting .unary nested (ks ++ us) (.not c) := by
  intro past _ hp hl
  obtain ⟨ks', us', rfl, hl₁, hl₂⟩ := hl.append
  have hus (hn : nested = false) : Outside (past ++ ks) :=
    (hp hn).append_bracketed (Sees.bracketed_kind hk rfl)
  obtain ⟨bs, us'', rfl, hbs, -, h⟩ := h _ us' hus hl₂
  have h := h.after_lines (.inl rfl) hbs
  cases nested with
  | true => exact ⟨[], _, rfl, Lines.nil, fun h => absurd rfl h, .not (hk.loosened_nested hl₁) h⟩
  | false =>
    -- the line breaks before the keyword are no part of the negation
    obtain ⟨t, rfl, ht⟩ := hk.eq_one
    obtain ⟨cs, rfl, hcs, hm⟩ := hl₁.one
    refine ⟨cs, _, List.append_assoc _ _ _, hcs, fun hne u hu => ?_, .not (Sees.one ht) h⟩
    cases hu
    exact hm hne

theorem lasting_join {left right level' : Level} {k : TokenKind} {ks ws : List Token}
    {a b : Condition} {join : Condition → Condition → Condition} (hk : Sees true (·.kind = k) ks)
    (hkind : k.isClausal = true) (hbs : Lines bs) (hus : Derives left nested us a)
    (ha : Lasting left nested us a) (hb : Lasting right nested ws b)
    (hd : ∀ us ks bs ws, Derives left nested us a → Sees true (·.kind = k) ks → Lines bs →
      Derives right nested ws b → Derives level' nested (us ++ (ks ++ (bs ++ ws))) (join a b)) :
    Lasting level' nested (us ++ (ks ++ (bs ++ ws))) (join a b) := by
  intro past _ hp hl
  obtain ⟨us', r, rfl, hl₁, hr⟩ := hl.append
  obtain ⟨ks', r, rfl, hl₂, hr⟩ := hr.append
  obtain ⟨bs', ws', rfl, hl₃, hl₄⟩ := hr.append
  have hout (hn : nested = false) : Outside (past ++ us ++ ks ++ bs) :=
    (((hp hn).append_bracketed hus.bracketed).append_bracketed
      (Sees.bracketed_kind hk hkind)).append_bracketed hbs.bracketed
  obtain ⟨cs, us'', rfl, hcs, hm, ha⟩ := ha past us' hp hl₁
  obtain ⟨ds, ws'', rfl, hds, -, hb⟩ := hb _ ws' hout hl₄
  have hlines : Lines (bs' ++ ds) := List.forall_mem_append.2 ⟨hl₃.lines hbs, hds⟩
  refine ⟨cs, us'' ++ (ks' ++ ((bs' ++ ds) ++ ws'')), by simp, hcs, fun hne t ht => ?_,
    hd _ _ _ _ ha (hk.loosened_nested hl₂) hlines hb⟩
  obtain ⟨u, us, rfl, -⟩ := hus.head
  exact hm hne t ht

/-- **Line breaks where a line may break change nothing of what a condition's tokens write.** -/
theorem Derives.lasting (h : Derives level nested us c) : Lasting level nested us c := by
  induction h with
  | comparison hf ht =>
    refine lasting_primary fun past _ hp hl => ?_
    obtain ⟨us', ws', rfl, hl₁, hl₂⟩ := hl.append
    refine .comparison (hf.loosened_nested hl₁) (ht.loosened hl₂ fun hn => ?_)
    exact (hp hn).shut_sees hf (fun _ ht => ht.1.1 ▸ rfl) fun _ ht => ht.1.1 ▸ rfl
  | @excluded nested us ks ws _ _ _ hf hk hw =>
    refine lasting_primary fun past _ hp hl => ?_
    obtain ⟨us', r, rfl, hl₁, hr⟩ := hl.append
    obtain ⟨ks', ws', rfl, hl₂, hl₃⟩ := hr.append
    have hfield (hn : nested = false) : Shut (past ++ us) :=
      (hp hn).shut_sees hf (fun _ ht => ht.1.1 ▸ rfl) fun _ ht => ht.1.1 ▸ rfl
    refine .excluded (hf.loosened_nested hl₁)
      (hk.loosened hl₂ hfield fun _ ht => ht ▸ rfl) (hw.loosened hl₃ fun hn => ?_)
    exact (hfield hn).outside.shut_sees hk (fun _ ht => ht ▸ rfl) fun _ ht => ht ▸ rfl
  | call hf hc =>
    refine lasting_primary fun past _ hp hl => ?_
    obtain ⟨us', ws', rfl, hl₁, hl₂⟩ := hl.append
    refine .call (hf.loosened_nested hl₁) (hc.loosened hl₂ fun hn => ?_)
    exact (hp hn).shut_sees hf (fun _ ht => ht.1 ▸ rfl) fun _ ht => ht.1 ▸ rfl
  | group ho _ hk ih =>
    refine lasting_primary fun past _ hp hl => ?_
    obtain ⟨os', r, rfl, hl₁, hr⟩ := hl.append
    obtain ⟨us', ks', rfl, hl₂, hl₃⟩ := hr.append
    obtain ⟨bs, us'', rfl, hbs, -, h⟩ := ih _ us' nofun hl₂
    exact .group (ho.loosened_nested hl₁) (h.after_lines (.inr rfl) hbs) (hk.loosened_nested hl₃)
  | plain _ ih => exact ih.imp fun _ => .plain
  | operand _ ih => exact ih.imp fun _ => .operand
  | clause _ ih => exact ih.imp fun _ => .clause
  | not hk _ ih => exact lasting_not hk ih
  | and ha hk hbs _ iha ihb => exact lasting_join hk rfl hbs ha iha ihb fun _ _ _ _ => .and
  | or ha hk hbs _ iha ihb => exact lasting_join hk rfl hbs ha iha ihb fun _ _ _ _ => .or

/-- **Line breaks where a line may break change nothing.** The reader answers with the same
condition, and stops before the same token. -/
theorem readOr_loosened {ts rest : List Token}
    (h : (readOr nested none ts).outcome = .ok (c, rest)) :
    ∃ us, ts = us ++ rest ∧ ∀ us', Loosened [] us us' →
      (readOr nested none (us' ++ rest)).outcome = .ok (c, rest) := by
  have hspec := spec_condition nested
  obtain ⟨us, rfl, hus, hend⟩ := (hspec.judges ts).sound c rest h
  refine ⟨us, rfl, fun us' hl => ?_⟩
  obtain ⟨bs, us'', rfl, -, hm, hus''⟩ := hus.lasting [] us' (fun _ => rfl) hl
  obtain ⟨t, ts, rfl, hor, hand⟩ := hus.head
  have hnone : ¬ MayBreak [] t := by
    rintro (hw | ⟨u, hu, -⟩ | hk | ⟨hk, -⟩)
    · exact nomatch hw
    · exact nomatch hu
    · exact hor hk
    · exact hand hk
  obtain rfl : bs = [] := Decidable.not_not.1 fun hne => hnone (hm hne t rfl)
  exact hspec.complete us'' c rest hus'' hend

end Condition

/-! ## A condition on one line and on several lines -/

theorem Loosened.keep {past us us' : List Token} {t : Token}
    (h : Loosened (past ++ [t]) us us') : Loosened past (t :: us) (t :: us') :=
  .cons Lines.nil (fun h => absurd rfl h) h

theorem Loosened.break {past us us' : List Token} {b t : Token} (hk : b.kind = .newline)
    (hb : MayBreak past t) (h : Loosened (past ++ [t]) us us') :
    Loosened past (t :: us) (b :: t :: us') :=
  .cons (List.forall_mem_singleton.2 hk) (fun _ => hb) h

/-- `NOT (a IS EMPTY) OR b BETWEEN 1 AND 2 AND c IS EMPTY`, with the given tokens before `(`, `)`,
`OR`, `b`, the second `AND` and `c`. -/
def spacedTokens (bs : List Token) : List Token :=
  ⟨.not, "NOT", ⟨1, 1⟩⟩ :: bs ++ ⟨.leftParen, "(", ⟨1, 5⟩⟩ :: ⟨.identifier, "a", ⟨1, 6⟩⟩ ::
    ⟨.comparison .isEmpty, "IS EMPTY", ⟨1, 8⟩⟩ :: bs ++ ⟨.rightParen, ")", ⟨1, 16⟩⟩ :: bs ++
    ⟨.or, "OR", ⟨1, 18⟩⟩ :: bs ++ [⟨.identifier, "b", ⟨1, 21⟩⟩,
    ⟨.comparison .between, "BETWEEN", ⟨1, 23⟩⟩, ⟨.number, "1", ⟨1, 31⟩⟩, ⟨.and, "AND", ⟨1, 33⟩⟩,
    ⟨.number, "2", ⟨1, 37⟩⟩] ++ bs ++ ⟨.and, "AND", ⟨1, 39⟩⟩ :: bs ++
    [⟨.identifier, "c", ⟨1, 43⟩⟩, ⟨.comparison .isEmpty, "IS EMPTY", ⟨1, 45⟩⟩]

def spacedCondition : Condition :=
  .or (.not (.group (.leaf (.comparison ⟨"a", .isEmpty, .none, ⟨1, 6⟩⟩))))
    (.and (.leaf (.comparison ⟨"b", .between, .range (.int 1) (.int 2), ⟨1, 21⟩⟩))
      (.leaf (.comparison ⟨"c", .isEmpty, .none, ⟨1, 43⟩⟩)))

theorem readOr_spacedTokens :
    (readOr false none (spacedTokens [])).outcome = .ok (spacedCondition, []) ∧
      (readOr false none (spacedTokens [⟨.newline, "\n", {}⟩])).outcome =
        .ok (spacedCondition, []) := by
  have hread : (readOr false none (spacedTokens [])).outcome = .ok (spacedCondition, []) := by
    have h : (readOr false none (spacedTokens [])).outcome.toOption =
        some (spacedCondition, []) := by decide +kernel
    cases hr : (readOr false none (spacedTokens [])).outcome with
    | error e => rw [hr] at h; cases h
    | ok q => rw [hr] at h; exact congrArg _ (Option.some.inj h)
  obtain ⟨us, hus, hbreaks⟩ := readOr_loosened hread
  rw [List.append_nil] at hus
  subst hus
  have hb : (⟨.newline, "\n", {}⟩ : Token).kind = .newline := rfl
  have hloose : Loosened [] (spacedTokens []) (spacedTokens [⟨.newline, "\n", {}⟩]) :=
    .keep (.break hb (by decide) (.keep (.keep (.break hb (by decide) (.break hb (by decide)
      (.break hb (by decide) (.keep (.keep (.keep (.keep (.break hb (by decide)
      (.break hb (by decide) (.keep .nil)))))))))))))
  have h := hbreaks _ hloose
  rw [List.append_nil] at h
  exact ⟨hread, h⟩

end Eligibility
