import Eligibility.Proofs.Script.Ahead

/-!
# Readers

A reader takes a sentence off the front of a list of tokens, or it stops. What it takes is a matter
of its grammar, and what may follow a sentence is a matter of what can be seen of the tokens ahead.
Where it stops, no continuation of the tokens is right; the tokens before that place have one.

* `Reader`, `Reader.of`: readers without the bound on what they leave;
* `Reader.StopsAt`, `Reader.Complete`, `Reader.Judges`, **`Reader.Spec`**: what a reader does;
* **`Judges.bind`**, `Complete.bind`, `Spec.bind`: one reader after the other;
* `Settles`, `settles_of_lines`: what was seen ahead stays as it is up to the place where the next
  reader stops.
-/

namespace Eligibility

variable {α β : Type}

/-- A reader of tokens. -/
abbrev Reader (α : Type) := StateT (List Token) (Except Failure) α

/-- What a reader answers, without the bound on what it leaves. -/
def Reading.outcome {n : Nat} (r : Reading α n) : Except Failure (α × List Token) :=
  Except.map (fun p => (p.value, p.rest)) r

/-- The sentences of a reader, with their meanings. -/
abbrev Sentences (α : Type) := List Token → α → Prop

/-- What may be seen after a sentence. -/
abbrev Follow (α : Type) := α → Sight → Prop

/-- Anything may follow. -/
def anything : Follow α := fun _ _ => True

/-- A sentence and then another one. -/
def Sentences.andThen (g : Sentences α) (h : α → Sentences β) : Sentences β :=
  fun us b => ∃ vs a ws, us = vs ++ ws ∧ g vs a ∧ h a ws b

namespace Reader

/-- The reader without the bound on what it leaves. -/
def of {b : List Token → Nat} (read : (ts : List Token) → Reading α (b ts)) : Reader α :=
  fun ts => (read ts).outcome

/-- After `us` the reader stops at the token `t`, whatever follows it. -/
def StopsAt (r : Reader α) (us : List Token) (e : Expected) (t : Token) : Prop :=
  ∀ post, r (us ++ t :: post) = .error ⟨e, t :: post⟩

/-- The reader takes every sentence off what may follow it. -/
def Complete (r : Reader α) (g : Sentences α) (f : Follow α) : Prop :=
  ∀ us a rest, g us a → f a (sight rest) → r (us ++ rest) = .ok (a, rest)

/-- What the reader does with the tokens: it takes a sentence off what may follow it, or it stops
after tokens that some sentence starts with. -/
structure Judges (r : Reader α) (g : Sentences α) (f : Follow α) (ts : List Token) : Prop where
  sound : ∀ a rest, r ts = .ok (a, rest) → ∃ us, ts = us ++ rest ∧ g us a ∧ f a (sight rest)
  stops : ∀ e, r ts = .error e → ∃ us, ts = us ++ e.rest ∧ (∃ more a, g (us ++ more) a) ∧
    ∀ t ∈ e.rest.head?, r.StopsAt us e.expected t

/-- What the reader does. -/
structure Spec (r : Reader α) (g : Sentences α) (f : Follow α) : Prop where
  complete : r.Complete g f
  judges : ∀ ts, r.Judges g f ts
  possible : ∃ us a, g us a

/-! ## One reader after the other -/

theorem outcome_bind {m n : Nat} {read : Reading α m} {next : Parsed α m → Reading β n}
    {x : Reader α} {r : α → Reader β} {ts : List Token} (hx : read.outcome = x ts)
    (h : ∀ p, (next p).outcome = r p.value p.rest) :
    Reading.outcome (read >>= next) = (x >>= r) ts := by
  show _ = x ts >>= fun q => r q.1 q.2
  rw [← hx]
  cases read with
  | error e => rfl
  | ok p => exact h p

theorem of_bind {b d : List Token → Nat} {read : (ts : List Token) → Reading α (b ts)}
    {next : (ts : List Token) → Parsed α (b ts) → Reading β (d ts)}
    {both : (ts : List Token) → Reading β (d ts)} {r : α → Reader β}
    (hb : ∀ ts, both ts = read ts >>= next ts)
    (h : ∀ ts p, (next ts p).outcome = r p.value p.rest) : of both = of read >>= r := by
  funext ts
  rw [of, hb]
  exact outcome_bind rfl (h ts)

theorem outcome_widen {m n : Nat} (h : m ≤ n) (r : Reading α m) :
    (r.widen h).outcome = r.outcome := by cases r <;> rfl

theorem bind_ok_iff {r : Reader α} {next : α → Reader β} {ts rest : List Token} {b : β} :
    (r >>= next) ts = .ok (b, rest) ↔
      ∃ a mid, r ts = .ok (a, mid) ∧ next a mid = .ok (b, rest) := by
  show (r ts >>= fun q => next q.1 q.2) = _ ↔ _
  cases r ts with
  | error e => exact ⟨nofun, nofun⟩
  | ok q =>
    constructor
    · exact fun h => ⟨q.1, q.2, rfl, h⟩
    · rintro ⟨a, mid, ha, h⟩
      cases ha
      exact h

theorem bind_error_iff {r : Reader α} {next : α → Reader β} {ts : List Token} {e : Failure} :
    (r >>= next) ts = .error e ↔
      r ts = .error e ∨ ∃ a mid, r ts = .ok (a, mid) ∧ next a mid = .error e := by
  show (r ts >>= fun q => next q.1 q.2) = _ ↔ _
  cases r ts with
  | error e' =>
    constructor
    · exact fun h => .inl (Except.error.inj h ▸ rfl)
    · rintro (h | ⟨a, mid, ha, -⟩)
      · exact Except.error.inj h ▸ rfl
      · cases ha
  | ok q =>
    constructor
    · exact fun h => .inr ⟨q.1, q.2, rfl, h⟩
    · rintro (h | ⟨a, mid, ha, h⟩)
      · cases h
      · cases ha
        exact h

/-- Up to the place where the reader stops, it looks at whatever `f` looks at. -/
def Settles (f : Sight → Prop) (r : Reader α) : Prop :=
  ∀ us e t, r.StopsAt us e t → ∀ post post', f (sight (us ++ t :: post)) →
    f (sight (us ++ t :: post'))

section Bind

variable {r : Reader α} {g : Sentences α} {f : Follow α} {next : α → Reader β}
  {g' : α → Sentences β} {f' : α → Follow β} {h : Sentences β} {k : Follow β} {ts : List Token}

theorem Complete.bind (hr : r.Complete g f) (hn : ∀ a, (next a).Complete (g' a) (f' a))
    (hk : ∀ a us b rest, g' a us b → k b (sight rest) →
      f a (sight (us ++ rest)) ∧ f' a b (sight rest)) :
    (r >>= next).Complete (g.andThen g') k := by
  rintro _ b rest ⟨us, a, ws, rfl, hus, hws⟩ hb
  obtain ⟨hf, hf'⟩ := hk a ws b rest hws hb
  rw [List.append_assoc]
  exact bind_ok_iff.2 ⟨a, ws ++ rest, hr us a _ hus hf, hn a ws b rest hws hf'⟩

/-- The next reader has to go on from every sentence that the first one may take off `ts`. -/
theorem Judges.bind (hr : r.Judges g f ts) (hc : r.Complete g f)
    (hn : ∀ us a mid, ts = us ++ mid → g us a → f a (sight mid) →
      (next a).Judges (fun ws b => h (us ++ ws) b) k mid)
    (hp : ∀ us a, g us a → ∃ ws b, h (us ++ ws) b) (hs : ∀ a, (next a).Settles (f a)) :
    (r >>= next).Judges h k ts := by
  constructor
  · intro b rest hboth
    obtain ⟨a, mid, ha, hb⟩ := bind_ok_iff.1 hboth
    obtain ⟨us, rfl, hus, hf⟩ := hr.sound a mid ha
    obtain ⟨ws, rfl, hws, hk⟩ := (hn us a mid rfl hus hf).sound b rest hb
    exact ⟨us ++ ws, by rw [List.append_assoc], hws, hk⟩
  · intro e he
    rcases bind_error_iff.1 he with hfirst | ⟨a, mid, ha, hnext⟩
    · -- the first reader stops
      obtain ⟨us, hts, ⟨more, a, hmore⟩, hstop⟩ := hr.stops e hfirst
      obtain ⟨ws, b, hws⟩ := hp _ a hmore
      refine ⟨us, hts, ⟨more ++ ws, b, by rwa [List.append_assoc] at hws⟩, ?_⟩
      intro t ht post
      exact bind_error_iff.2 (.inl (hstop t ht post))
    · -- the first reader takes a sentence, and still does so whatever follows the stop
      obtain ⟨us, rfl, hus, hf⟩ := hr.sound a mid ha
      obtain ⟨ws, rfl, ⟨more, b, hmore⟩, hstop⟩ := (hn us a mid rfl hus hf).stops e hnext
      refine ⟨us ++ ws, by rw [List.append_assoc], ⟨more, b, by rwa [List.append_assoc]⟩, ?_⟩
      intro t ht post
      obtain ⟨post', hpost⟩ := List.head?_eq_some_iff.1 ht
      rw [hpost] at hf
      have hf := hs a ws _ t (hstop t ht) post' post hf
      rw [List.append_assoc]
      exact bind_error_iff.2 (.inr ⟨a, _, hc us a _ hus hf, hstop t ht post⟩)

theorem Judges.mono {g' : Sentences α} {f' : Follow α} (hr : r.Judges g f ts)
    (hg : ∀ us a, g us a → g' us a)
    (hf : ∀ us a rest, ts = us ++ rest → g us a → f a (sight rest) → f' a (sight rest)) :
    r.Judges g' f' ts := by
  refine ⟨fun a rest ha => ?_, fun e he => ?_⟩
  · obtain ⟨us, hts, hus, hrest⟩ := hr.sound a rest ha
    exact ⟨us, hts, hg us a hus, hf us a rest hts hus hrest⟩
  · obtain ⟨us, hts, ⟨more, a, hmore⟩, hstop⟩ := hr.stops e he
    exact ⟨us, hts, ⟨more, a, hg _ a hmore⟩, hstop⟩

theorem Spec.bind (hr : r.Spec g f) (hn : ∀ a, (next a).Spec (g' a) (f' a))
    (hs : ∀ a, (next a).Settles (f a))
    (hk : ∀ a us b rest, g' a us b →
      (k b (sight rest) ↔ f a (sight (us ++ rest)) ∧ f' a b (sight rest))) :
    (r >>= next).Spec (g.andThen g') k := by
  have hthen {us ws : List Token} {a : α} {b : β} (hus : g us a) (hws : g' a ws b) :
      g.andThen g' (us ++ ws) b := ⟨us, a, ws, rfl, hus, hws⟩
  refine ⟨hr.complete.bind (fun a => (hn a).complete) fun a us b rest h => (hk a us b rest h).1,
    fun ts => (hr.judges ts).bind hr.complete (fun us a mid _ hus hf => ?_) ?_ hs, ?_⟩
  · refine ((hn a).judges mid).mono (fun ws b => hthen hus) fun ws b rest hmid hws hf' => ?_
    exact (hk a ws b rest hws).2 ⟨hmid ▸ hf, hf'⟩
  · intro us a hus
    obtain ⟨ws, b, hws⟩ := (hn a).possible
    exact ⟨ws, b, hthen hus hws⟩
  · obtain ⟨us, a, hus⟩ := hr.possible
    obtain ⟨ws, b, hws⟩ := (hn a).possible
    exact ⟨us ++ ws, b, hthen hus hws⟩

theorem Spec.andThen {f' : Follow β} (hr : r.Spec g anything) (hn : ∀ a, (next a).Spec (g' a) f') :
    (r >>= next).Spec (g.andThen g') f' :=
  hr.bind hn (fun _ _ _ _ _ _ _ _ => trivial) fun _ _ _ _ _ => ⟨fun h => ⟨trivial, h⟩, And.right⟩

theorem Spec.congr {g' : Sentences α} (hr : r.Spec g f) (hg : ∀ us a, g us a ↔ g' us a) :
    r.Spec g' f := by
  obtain rfl : g = g' := funext fun us => funext fun a => propext (hg us a)
  exact hr

theorem Spec.follow {f' : Follow α} (hr : r.Spec g f) (hf : ∀ a s, f a s ↔ f' a s) :
    r.Spec g f' := by
  obtain rfl : f = f' := funext fun a => funext fun s => propext (hf a s)
  exact hr

theorem judges_pure {a : α} (hg : g [] a) (hf : f a (sight ts)) :
    (pure a : Reader α).Judges g f ts := by
  refine ⟨?_, nofun⟩
  rintro b rest h
  cases h
  exact ⟨[], rfl, hg, hf⟩

theorem spec_pure (a : α) : (pure a : Reader α).Spec (fun us b => us = [] ∧ b = a) anything := by
  refine ⟨?_, fun ts => judges_pure ⟨rfl, rfl⟩ trivial, [], a, rfl, rfl⟩
  rintro _ b rest ⟨rfl, rfl⟩ -
  rfl

theorem not_stopsAt_pure {a : α} {us : List Token} {e : Expected} {t : Token} :
    ¬ (pure a : Reader α).StopsAt us e t := fun h => nomatch h []

theorem settles_pure (f : Sight → Prop) (a : α) : (pure a : Reader α).Settles f :=
  fun _ _ _ h => absurd h not_stopsAt_pure

theorem Spec.map {k : Follow β} (hr : r.Spec g f) (v : α → β)
    (hk : ∀ a s, k (v a) s ↔ f a s) :
    (r >>= fun a => pure (v a)).Spec (fun us b => ∃ a, g us a ∧ b = v a) k := by
  refine (hr.bind (fun a => spec_pure (v a)) (fun a => settles_pure _ _) ?_).congr ?_
  · rintro a _ _ rest ⟨rfl, rfl⟩
    exact ⟨fun h => ⟨(hk a _).1 h, trivial⟩, fun h => (hk a _).2 h.1⟩
  · intro us b
    constructor
    · rintro ⟨vs, a, ws, rfl, hvs, rfl, rfl⟩
      exact ⟨a, by rwa [List.append_nil], rfl⟩
    · rintro ⟨a, hus, rfl⟩
      exact ⟨us, a, [], by rw [List.append_nil], hus, rfl, rfl⟩

end Bind

/-! ## What was seen ahead -/

section Settles

variable {r : Reader α} {f : Sight → Prop}

theorem settles_anything (r : Reader α) : r.Settles fun _ => True := fun _ _ _ _ _ _ _ => trivial

theorem settles_next {p : Option Token → Prop} (r : Reader α) :
    r.Settles fun s => p s.next := by
  intro us e t _ post post' h
  cases us <;> exact h

/-- A reader that can go on after line breaks does not stop at one. -/
theorem settles_of_lines (h : ∀ bs, Lines bs → ∃ more q, r (bs ++ more) = .ok q) :
    r.Settles f := by
  intro us e t hstop post post' hf
  have hmark : ∃ u ∈ us ++ [t], u.kind ≠ .newline := by
    by_cases hall : Lines (us ++ [t])
    · obtain ⟨more, q, hq⟩ := h _ hall
      rw [List.append_assoc] at hq
      exact nomatch hq.symm.trans (hstop more)
    · simpa [Lines] using hall
  have hsight := sight_append hmark post post'
  rw [List.append_assoc, List.append_assoc] at hsight
  exact hsight ▸ hf

end Settles

end Reader

end Eligibility
