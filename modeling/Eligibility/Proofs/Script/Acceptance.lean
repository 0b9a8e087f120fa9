import Eligibility.Proofs.Script.Chains
import Eligibility.Proofs.Token.Number

/-!
# The conditions that are read

* `exists_denotes_iff`: the tokens of a text that stand for values;
* **`readOr_accepts`**: a condition is read off the front of the tokens if they start with a
  derivation of it that ends where no optional part can follow, and nothing else is read.
-/

namespace Eligibility

open Reader

variable {t : Token}

theorem exists_denotes_iff (hn : t.kind = .number → ∃ v, Value.ofNumber? t.text = some v) :
    (∃ v, t.Denotes v) ↔ t.kind = .string ∨ t.kind = .number ∨
      (∃ b, t.kind = .answer b ∨ t.kind = .truth b) ∨ t.kind = .identifier := by
  constructor
  · rintro ⟨v, h⟩
    cases h with
    | string hk => exact .inl hk
    | number hk => exact .inr (.inl hk)
    | answer hk => exact .inr (.inr (.inl ⟨_, .inl hk⟩))
    | truth hk => exact .inr (.inr (.inl ⟨_, .inr hk⟩))
    | identifier hk => exact .inr (.inr (.inr hk))
  · rintro (hk | hk | ⟨b, hk | hk⟩ | hk)
    · exact ⟨_, .string hk⟩
    · obtain ⟨v, hv⟩ := hn hk
      exact ⟨v, .number hk hv⟩
    · exact ⟨_, .answer hk⟩
    · exact ⟨_, .truth hk⟩
    · exact ⟨_, .identifier hk⟩

/-- **Conditions are accepted by their grammar.** What is read is derived, with no optional part
left out in front of `rest`, and reading fails only without such a derivation. -/
theorem readOr_accepts (text : String) (n : Nat) :
    let ts := (tokenize text).tokens.drop n
    (∀ c rest, (readOr false none ts).outcome = .ok (c, rest) ↔
      ∃ us, ts = us ++ rest ∧ Derives .disjunction false us c ∧ Ends false c (sight rest)) ∧
    ((∃ e, readOr false none ts = .error e) ↔
      ¬ ∃ us c rest, ts = us ++ rest ∧ Derives .disjunction false us c ∧
        Ends false c (sight rest)) ∧
    ∀ t ∈ ts, (∃ v, t.Denotes v) ↔ t.kind = .string ∨ t.kind = .number ∨
      (∃ b, t.kind = .answer b ∨ t.kind = .truth b) ∨ t.kind = .identifier := by
  intro ts
  have hspec := spec_condition false
  have hok (c : Condition) (rest : List Token) :
      (readOr false none ts).outcome = .ok (c, rest) ↔
        ∃ us, ts = us ++ rest ∧ Derives .disjunction false us c ∧ Ends false c (sight rest) := by
    constructor
    · exact (hspec.judges ts).sound c rest
    · rintro ⟨us, hts, hus, hends⟩
      have := hspec.complete us c rest hus hends
      rwa [← hts] at this
  refine ⟨hok, ?_, fun t ht => exists_denotes_iff (number_has_value (List.mem_of_mem_drop ht))⟩
  cases hread : readOr false none ts with
  | error e =>
    refine iff_of_true ⟨e, rfl⟩ ?_
    rintro ⟨us, c, rest, h⟩
    have := (hok c rest).2 ⟨us, h⟩
    rw [hread] at this
    cases this
  | ok p =>
    have hp : (readOr false none ts).outcome = .ok (p.value, p.rest) := by rw [hread]; rfl
    obtain ⟨us, h⟩ := (hok p.value p.rest).1 hp
    exact iff_of_false nofun fun hno => hno ⟨us, p.value, p.rest, h⟩

end Eligibility
