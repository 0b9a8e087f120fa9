import Eligibility.Proofs.Script.Items

/-!
# Answers of token readers

What readers answer is told by the token ahead of them.

* `dropNewlines_cons_of_newline`, `dropNewlines_ahead`: line breaks in front of the token ahead;
* `ahead_cases`, `option_of_cons`, `option_of_none`, `expect_of_cons`, `expect_of_none`: readers of
  single tokens;
* `bind_of_ok`, `bind_of_error`, `lines_eq`: one reader after the other;
* `length_lt_of`, `length_option_ahead`, `length_option_lt`, `length_lines_le`: how many tokens a
  reader leaves.
-/

namespace Eligibility

open Reader

variable {α β : Type} {nested : Bool} {read : Token → Option α} {e : Expected} {r : Reader α}
  {next : α → Reader β} {ts rest : List Token} {u : Token} {a : α}

/-! ## Line breaks -/

theorem dropNewlines_cons_of_newline {u : Token} (hu : u.kind = .newline) (ts : List Token) :
    dropNewlines (u :: ts) = dropNewlines ts := by
  have hbs : Lines [u] := List.forall_mem_singleton.2 hu
  exact dropNewlines_append hbs ts

theorem dropNewlines_ahead (nested : Bool) (ts : List Token) :
    dropNewlines (ahead nested ts) = dropNewlines ts := by
  cases nested with
  | false => rfl
  | true => exact dropNewlines_eq fun _ => head_dropNewlines

/-! ## Single tokens -/

theorem ofKind?_eq_none {k : TokenKind} : u.ofKind? k = none ↔ u.kind ≠ k := by
  rw [Token.ofKind?]
  split <;> simp [*]

theorem option_of_cons (h : ahead nested ts = u :: rest) (hu : read u = some a) :
    option nested read ts = .ok (some a, rest) := by
  obtain ⟨q, hq, rfl, rfl⟩ := next?_of_ahead_cons h hu
  rw [option, hq]

theorem option_of_none (h : ∀ u ∈ (ahead nested ts).head?, read u = none) :
    option nested read ts = .ok (none, ts) := by
  rw [option, next?_eq_none_iff.2 (by rwa [seen_sight])]

theorem expect_of_cons (h : ahead nested ts = u :: rest) (hu : read u = some a) :
    of (expect nested read e) ts = .ok (a, rest) := by
  obtain ⟨q, hq, rfl, rfl⟩ := next?_of_ahead_cons h hu
  rw [of, expect, hq]
  rfl

theorem expect_of_none (h : ∀ u ∈ (ahead nested ts).head?, read u = none) :
    of (expect nested read e) ts = .error ⟨e, ahead nested ts⟩ := by
  rw [of, expect, next?_eq_none_iff.2 (by rwa [seen_sight])]
  rfl

theorem ahead_cases (nested : Bool) (read : Token → Option α) (ts : List Token) :
    (∃ u rest a, ahead nested ts = u :: rest ∧ read u = some a) ∨
      ∀ u ∈ (ahead nested ts).head?, read u = none := by
  cases hahead : ahead nested ts with
  | nil => exact .inr fun _ h => Option.not_mem_none _ h |>.elim
  | cons u rest =>
    cases hu : read u with
    | none => exact .inr fun _ h => Option.some.inj h ▸ hu
    | some a => exact .inl ⟨u, rest, a, rfl, hu⟩

/-! ## One reader after the other -/

theorem bind_of_ok (h : r ts = .ok (a, rest)) : (r >>= next) ts = next a rest := by
  show r ts >>= _ = _
  rw [h]
  rfl

theorem bind_of_error {f : Failure} (h : r ts = .error f) : (r >>= next) ts = .error f := by
  show r ts >>= _ = _
  rw [h]
  rfl

theorem lines_eq :
    lines = option false (Token.ofKind? .newline) >>= fun o => o.elim (pure ()) fun _ => lines := by
  funext ts
  rcases ahead_cases false (Token.ofKind? .newline) ts with ⟨u, rest, x, hu, hx⟩ | hnone
  · rw [bind_of_ok (option_of_cons hu hx)]
    obtain rfl : ts = u :: rest := hu
    rw [Option.elim_some, lines, lines, dropNewlines_cons_of_newline (ofKind?_eq_some.1 hx)]
  · have hkind : ∀ u ∈ ts.head?, u.kind ≠ .newline := fun u hu => ofKind?_eq_none.1 (hnone u hu)
    rw [bind_of_ok (option_of_none hnone), lines, dropNewlines_eq hkind]
    rfl

/-! ## How many tokens are left -/

theorem length_lt_of {b : List Token → Nat} {read : (ts : List Token) → Reading α (b ts)}
    (h : of read ts = .ok (a, rest)) : rest.length < b ts := by
  rw [of, Reading.outcome] at h
  cases hp : read ts with
  | error f => rw [hp] at h; cases h
  | ok p =>
    rw [hp] at h
    cases h
    exact p.lt

theorem length_option_ahead (h : option nested read ts = .ok (some a, rest)) :
    rest.length < (ahead nested ts).length := by
  rcases ahead_cases nested read ts with ⟨u, us, b, hu, hb⟩ | hnone
  · rw [option_of_cons hu hb] at h
    cases h
    rw [hu]
    exact Nat.lt_succ_self _
  · rw [option_of_none hnone] at h
    cases h

theorem length_option_lt (h : option nested read ts = .ok (some a, rest)) :
    rest.length < ts.length :=
  Nat.lt_of_lt_of_le (length_option_ahead h) (length_ahead_le nested ts)

theorem length_option_le {o : Option α} (h : option nested read ts = .ok (o, rest)) :
    rest.length ≤ ts.length := by
  cases o with
  | some a => exact Nat.le_of_lt (length_option_lt h)
  | none =>
    unfold option at h
    split at h
    · cases h
    · cases h
      exact Nat.le_refl _

theorem length_lines_le {x : Unit} (h : lines ts = .ok (x, rest)) : rest.length ≤ ts.length := by
  cases h
  exact length_dropNewlines_le ts

/-- What is expected past line breaks does not depend on them. -/
theorem expect_dropNewlines :
    of (expect true read e) (dropNewlines ts) = of (expect true read e) ts := by
  have hahead : ahead true (dropNewlines ts) = ahead true ts := dropNewlines_ahead true ts
  rcases ahead_cases true read ts with ⟨u, rest, a, hu, ha⟩ | hnone
  · rw [expect_of_cons hu ha, expect_of_cons (hahead.trans hu) ha]
  · rw [expect_of_none hnone, expect_of_none (by rwa [hahead]), hahead]

end Eligibility
