import Eligibility.Proofs.Script.Derivation

/-!
# What is seen ahead

* `exists_lines`, `exists_ahead`: a list of tokens is line breaks and what is ahead of them;
* **`sight_append`**: past a token that is no line break nothing can be seen;
* `ahead_sees`, `sees_of_ahead`, `Sees.beyond`, `Sees.seen`: a token ahead, and where it is seen;
* `next?_eq_some_iff`, `next?_eq_none_iff`: the first token that counts, read as a value.
-/

namespace Eligibility

variable {α : Type} {nested : Bool} {us bs ts rest : List Token} {t : Token}

/-! ## Line breaks -/

theorem seen_sight (nested : Bool) (ts : List Token) :
    (sight ts).seen nested = (ahead nested ts).head? := by cases nested <;> rfl

theorem dropNewlines_append (h : Lines bs) (ts : List Token) :
    dropNewlines (bs ++ ts) = dropNewlines ts := by
  refine List.dropWhile_append_of_pos fun t ht => ?_
  rw [decide_eq_true_eq]
  exact h t ht

theorem dropNewlines_cons (h : t.kind ≠ .newline) (ts : List Token) :
    dropNewlines (t :: ts) = t :: ts :=
  List.dropWhile_cons_of_neg (by simpa using h)

theorem dropNewlines_eq (h : ∀ t ∈ ts.head?, t.kind ≠ .newline) : dropNewlines ts = ts := by
  cases ts with
  | nil => rfl
  | cons t ts => exact dropNewlines_cons (h t rfl) ts

theorem head_dropNewlines (h : t ∈ (dropNewlines ts).head?) : t.kind ≠ .newline := by
  have := List.head?_dropWhile_not (fun t : Token => decide (t.kind = .newline)) ts
  rw [show (ts.dropWhile _).head? = some t from h] at this
  simpa using this

/-- A list of tokens is line breaks and what is ahead of them. -/
theorem exists_lines (ts : List Token) : ∃ bs, Lines bs ∧ ts = bs ++ dropNewlines ts := by
  refine ⟨ts.takeWhile (·.kind = .newline), fun t ht => ?_, List.takeWhile_append_dropWhile.symm⟩
  have := List.all_eq_true.1 List.all_takeWhile t ht
  rwa [decide_eq_true_eq] at this

/-- Past a token that is no line break nothing can be seen. -/
theorem sight_append (h : ∃ u ∈ us, u.kind ≠ .newline) (ts ts' : List Token) :
    sight (us ++ ts) = sight (us ++ ts') := by
  obtain ⟨bs, hbs, hus⟩ := exists_lines us
  cases hd : dropNewlines us with
  | nil =>
    obtain ⟨u, hu, hk⟩ := h
    rw [hus, hd, List.append_nil] at hu
    exact absurd (hbs u hu) hk
  | cons u vs =>
    have hu : u.kind ≠ .newline := head_dropNewlines (congrArg List.head? hd)
    rw [hus, hd]
    have hbeyond (ws : List Token) : dropNewlines (bs ++ u :: vs ++ ws) = u :: (vs ++ ws) := by
      rw [List.append_assoc, dropNewlines_append hbs, List.cons_append, dropNewlines_cons hu]
    have hnext (ws : List Token) : (bs ++ u :: vs ++ ws).head? = (bs ++ u :: vs).head? := by
      cases bs <;> rfl
    simp only [sight, hbeyond, hnext, List.head?_cons]

theorem exists_ahead (nested : Bool) (ts : List Token) :
    ∃ bs, Lines bs ∧ (nested = false → bs = []) ∧ ts = bs ++ ahead nested ts := by
  cases nested with
  | false => exact ⟨[], Lines.nil, fun _ => rfl, rfl⟩
  | true =>
    obtain ⟨bs, hbs, hts⟩ := exists_lines ts
    exact ⟨bs, hbs, nofun, hts⟩

theorem kind_of_ahead {nested : Bool} (h : ahead nested ts = t :: rest) (hn : nested = true) :
    t.kind ≠ .newline := by
  subst hn
  exact head_dropNewlines (congrArg List.head? h)

theorem ahead_append (hbs : Lines bs) (hn : nested = false → bs = [])
    (hk : nested = true → t.kind ≠ .newline) (rest : List Token) :
    ahead nested (bs ++ t :: rest) = t :: rest := by
  cases nested with
  | false =>
    rw [hn rfl]
    rfl
  | true =>
    show dropNewlines _ = _
    rw [dropNewlines_append hbs, dropNewlines_cons (hk rfl)]

/-! ## One token -/

theorem ahead_sees {p : Token → Prop} (h : Sees nested p us)
    (hp : ∀ t, p t → t.kind ≠ .newline) (rest : List Token) :
    ∃ t, ahead nested (us ++ rest) = t :: rest ∧ p t := by
  obtain ⟨bs, t, rfl, hbs, hn, ht⟩ := h
  refine ⟨t, ?_, ht⟩
  rw [List.append_assoc]
  exact ahead_append hbs hn (fun _ => hp t ht) rest

theorem Sees.exists_beyond {p : Token → Prop} (h : Sees true p us)
    (hp : ∀ t, p t → t.kind ≠ .newline) (ts : List Token) :
    ∃ t, (sight (us ++ ts)).beyond = some t ∧ p t := by
  obtain ⟨t, ht, hpt⟩ := ahead_sees h hp ts
  exact ⟨t, congrArg List.head? ht, hpt⟩

theorem Sees.beyond {p : Token → Prop} (h : Sees true p us) (hp : ∀ t, p t → t.kind ≠ .newline)
    (ts : List Token) : ∀ t ∈ (sight (us ++ ts)).beyond, p t := by
  obtain ⟨u, hu, hpu⟩ := h.exists_beyond hp ts
  rw [hu]
  exact fun t ht => Option.some.inj ht ▸ hpu

/-- What is seen where such a token stands: the token, or a line break before it. -/
theorem Sees.seen {p : Token → Prop} (h : Sees true p us) (hp : ∀ t, p t → t.kind ≠ .newline)
    (nested : Bool) (ts : List Token) :
    ∀ t ∈ (sight (us ++ ts)).seen nested, p t ∨ t.kind = .newline := by
  cases nested with
  | true => exact fun t ht => .inl (h.beyond hp ts t ht)
  | false =>
    obtain ⟨bs, u, rfl, hbs, -, hu⟩ := h
    intro t ht
    cases bs with
    | nil => exact .inl (Option.some.inj ht ▸ hu)
    | cons b bs => exact .inr (Option.some.inj ht ▸ hbs b List.mem_cons_self)

theorem sees_of_ahead {p : Token → Prop} (h : ahead nested ts = t :: rest) (ht : p t) :
    ∃ us, ts = us ++ rest ∧ Sees nested p us := by
  obtain ⟨bs, hbs, hn, hts⟩ := exists_ahead nested ts
  exact ⟨bs ++ [t], by rw [hts, h]; simp, bs, t, rfl, hbs, hn, ht⟩

theorem Sees.imp {p q : Token → Prop} (h : Sees nested p us) (hpq : ∀ t, p t → q t) :
    Sees nested q us := by
  obtain ⟨bs, t, rfl, hbs, hn, ht⟩ := h
  exact ⟨bs, t, rfl, hbs, hn, hpq t ht⟩

theorem Sees.after_lines {p : Token → Prop} (h : Sees true p us) (hbs : Lines bs) :
    Sees true p (bs ++ us) := by
  obtain ⟨bs', t, rfl, hbs', -, ht⟩ := h
  exact ⟨bs ++ bs', t, (List.append_assoc _ _ _).symm, List.forall_mem_append.2 ⟨hbs, hbs'⟩, nofun,
    ht⟩

theorem Sees.ahead {p : Token → Prop} (h : Sees nested p us) (hp : ∀ t, p t → t.kind ≠ .newline)
    (drop : Bool) (ts : List Token) :
    ∃ ks, ahead drop (us ++ ts) = ks ++ ts ∧ Sees nested p ks := by
  cases drop with
  | false => exact ⟨us, rfl, h⟩
  | true =>
    obtain ⟨bs, t, rfl, hbs, hn, ht⟩ := h
    refine ⟨[t], ?_, Sees.one ht⟩
    show dropNewlines _ = _
    rw [List.append_assoc, dropNewlines_append hbs]
    exact dropNewlines_cons (hp t ht) ts

/-! ## Reading one token -/

variable {read : Token → Option α} {a : α}

theorem ofKind?_eq_some {k : TokenKind} {u : Unit} : t.ofKind? k = some u ↔ t.kind = k := by
  rw [Token.ofKind?]
  split <;> simp [*]

theorem next?_eq_some_iff {q : Parsed α ts.length} :
    next? nested read ts = some q ↔ ∃ t, ahead nested ts = t :: q.rest ∧ read t = some q.value := by
  unfold next?
  generalize length_ahead_le nested ts = hle
  revert hle
  generalize ahead nested ts = us
  intro hle
  cases us with
  | nil => exact ⟨nofun, nofun⟩
  | cons t us =>
    obtain ⟨a, rest, hlt⟩ := q
    rw [head?, Option.map_map, Option.map_eq_some_iff]
    constructor
    · rintro ⟨b, hb, hq⟩
      cases hq
      exact ⟨t, rfl, hb⟩
    · rintro ⟨u, hu, ha⟩
      cases hu
      exact ⟨a, ha, rfl⟩

theorem next?_eq_none_iff :
    next? nested read ts = none ↔ ∀ t ∈ (sight ts).seen nested, read t = none := by
  rw [seen_sight]
  unfold next?
  generalize length_ahead_le nested ts = hle
  revert hle
  generalize ahead nested ts = us
  intro hle
  cases us with
  | nil => exact ⟨fun _ => nofun, fun _ => rfl⟩
  | cons t us =>
    rw [Option.map_eq_none_iff, head?, Option.map_eq_none_iff]
    constructor
    · rintro h u hu
      exact Option.some.inj hu ▸ h
    · exact fun h => h t rfl

theorem next?_of_ahead_cons (h : ahead nested ts = t :: rest) (ht : read t = some a) :
    ∃ q, next? nested read ts = some q ∧ q.value = a ∧ q.rest = rest := by
  have hlt : rest.length < ts.length := by
    have := length_ahead_le nested ts
    rw [h] at this
    exact this
  exact ⟨⟨a, rest, hlt⟩, next?_eq_some_iff.2 ⟨t, h, ht⟩, rfl, rfl⟩

end Eligibility
