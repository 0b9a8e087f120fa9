import Eligibility.Proofs.Script.Items

/-!
# The place of an error

* `error?_ofTokens`, `isValid_ofTokens`: the report on a token stream by its parts;
* **`ofText_error_first`**: an error stands at the first token that no valid script has there.
-/

namespace Eligibility

variable {s : TokenStream} {e : Located Expected}

theorem error?_ofTokens (s : TokenStream) :
    (Report.ofTokens s).error? = (readItems s.tokens).2.map (Report.locate s.finish) := by
  unfold Report.error? Report.ofTokens
  generalize readItems s.tokens = r
  obtain ⟨items, f⟩ := r
  cases f <;> rfl

theorem isValid_ofTokens : (Report.ofTokens s).isValid = true ↔ (readItems s.tokens).2 = none := by
  rw [Report.isValid, error?_ofTokens, Option.isNone_iff_eq_none, Option.map_eq_none_iff]

theorem ofText_of_error {text : String} (h : (Report.ofText text).error? = some e) :
    Report.ofText text = Report.ofTokens (tokenize text) := by
  unfold Report.ofText at h ⊢
  split at h
  · cases h
  · rename_i hblank
    rw [if_neg hblank]

/-- **An error stands at the first impossible token.** What stands before it is the start of some
valid script, and every script that starts the same way has this very error. -/
theorem ofText_error_first {text : String} (h : (Report.ofText text).error? = some e) :
    ∃ before t after, (tokenize text).toList = before ++ t :: after ∧ e.position = t.position ∧
      (∃ more, (∀ u ∈ more, u.kind ≠ .eof) ∧
        ∀ finish, (Report.ofTokens ⟨before ++ more, finish⟩).isValid = true) ∧
      (t.kind ≠ .eof → ∀ more finish,
        (Report.ofTokens ⟨before ++ t :: more, finish⟩).error? = some e) := by
  rw [ofText_of_error h, error?_ofTokens] at h
  obtain ⟨f, hf, rfl⟩ := Option.map_eq_some_iff.1 h
  have hsplits := splits_readItems (tokenize text).tokens
  rw [hf] at hsplits
  obtain ⟨us, hts, -, ⟨more, hmore, hok⟩, hstop⟩ := hsplits.stops
  have hextends : ∃ more, (∀ u ∈ more, u.kind ≠ .eof) ∧
      ∀ finish, (Report.ofTokens ⟨us ++ more, finish⟩).isValid = true :=
    ⟨more, fun u hu => (hmore u hu).2, fun finish => isValid_ofTokens.2 hok⟩
  obtain ⟨expected, rest⟩ := f
  cases rest with
  | nil =>
    refine ⟨us, (tokenize text).eof, [], ?_, rfl, hextends, fun hne => absurd rfl hne⟩
    rw [TokenStream.toList, hts, List.append_nil]
  | cons t rest =>
    refine ⟨us, t, rest ++ [(tokenize text).eof], ?_, rfl, hextends, fun _ more finish => ?_⟩
    · rw [TokenStream.toList, hts, List.append_assoc, List.cons_append]
    · rw [error?_ofTokens, hstop t rfl more]
      rfl

/-- A script whose list of values is cut off by the next rule, two lines into a group. -/
def cutScript : String := "RULE \"R\"\nWHEN NOT (age >= 18\n  AND kind NOT IN (1,\n RULE \"S\""

theorem cutScript_error_first :
    (Report.ofText cutScript).error? = some ⟨⟨4, 2⟩, .value⟩ ∧
      ∃ before t after, (tokenize cutScript).toList = before ++ t :: after ∧
        (⟨4, 2⟩ : Position) = t.position ∧
        (∃ more, (∀ u ∈ more, u.kind ≠ .eof) ∧
          ∀ finish, (Report.ofTokens ⟨before ++ more, finish⟩).isValid = true) ∧
        (t.kind ≠ .eof → ∀ more finish,
          (Report.ofTokens ⟨before ++ t :: more, finish⟩).error? = some ⟨⟨4, 2⟩, .value⟩) :=
  have h : (Report.ofText cutScript).error? = some ⟨⟨4, 2⟩, .value⟩ := by decide +kernel
  ⟨h, ofText_error_first h⟩

end Eligibility
