import Eligibility.Proofs.Blob.Header
import Eligibility.Proofs.Ruleset.Clauses
import Eligibility.Proofs.Wire.Room

/-!
# Rulesets written and read

* `ofBlob_withHeader_of`: the blob of a counted ruleset gives its payload back;
* **`ofBlob_toBlob_compile`**: a compiled ruleset is read back from its blob, and the blob matches
  the texts with the digest of the script that was given for it;
* `ofBlob_isCounted`, **`ofBlob_rewritable`**: what is read from any bytes is counted, and writing
  it again takes no more bytes and gives it back.
-/

namespace Eligibility

variable {r : Ruleset} {b : Bytes}

/-! ## From rulesets to blobs -/

theorem ofBlob_withHeader_of {source : Option String} (hr : r.IsCounted)
    (hf : Payload.codec.Fits (.of r source))
    (hl : (Payload.codec.write (.of r source)).length < 2 ^ 32) :
    Payload.ofBlob (withHeader (Payload.codec.write (.of r source))) = .ok (.of r source) := by
  rw [ofBlob_withHeader hl, Payload.ofBytes_write hr hf]

theorem sourceMatches_of {p : Payload} (h : Payload.ofBlob b = .ok p) (script : String) :
    sourceMatches b script = .ok (p.sourceDigest == some (sourceDigest script)) := by
  rw [sourceMatches, h]
  rfl

section Compile

variable {rules : List Rule} {code scope : String} {m : Mapping}

theorem compile_warnings_words (h : compile rules code scope m = .ok r)
    (hp : ∀ rule ∈ rules, ∀ p ∈ rule.places, p.InWords) : ∀ w ∈ r.warnings, w.position.InWords := by
  intro w hw
  rcases compile_warnings_placed h hw with hnone | ⟨rule, hrule, hplace⟩
  · rw [hnone]
    exact ⟨by decide, by decide⟩
  · exact hp rule hrule _ hplace

/-- **A compiled ruleset survives its blob**, if the payload is below 4 GiB. The blob matches just
the texts with the digest of the script that was given. -/
theorem ofBlob_toBlob_compile (h : compile rules code scope m = .ok r)
    (hp : ∀ rule ∈ rules, ∀ p ∈ rule.places, p.InWords) (source : Option String)
    (hl : (Payload.codec.write (.of r source)).length ≤ 2 ^ 32 - 1) :
    ∃ b, r.toBlob source = .ok b ∧ Ruleset.ofBlob b = .ok r ∧
      ∀ t, sourceMatches b t =
        .ok (source.any fun s => Blake3.hash (utf8 s) = Blake3.hash (utf8 t)) := by
  have hshort : (Payload.codec.write (.of r source)).length < 2 ^ 32 := by omega
  have hcounted := compile_isCounted h
  have hfits : Payload.codec.Fits (.of r source) :=
    Payload.fits_of hcounted (compile_warnings_words h hp) (by omega)
  have hread := ofBlob_withHeader_of hcounted hfits hshort
  refine ⟨_, Ruleset.toBlob_eq_ok.2 ⟨hshort, rfl⟩, Ruleset.ofBlob_eq_ok.2 ⟨_, hread, rfl⟩, ?_⟩
  intro t
  rw [sourceMatches_of hread]
  cases source with
  | none => rfl
  | some s => simp [Payload.of, sourceDigest, beq_eq_decide]

end Compile

theorem length_write_of (r : Ruleset) (source : Option String) :
    (Payload.codec.write (.of r source)).length ≤
      (Payload.codec.write (.of r none)).length + 32 := by
  have hdigest : (Codec.digest.option.write (source.map sourceDigest)).length ≤ 33 := by
    cases source with
    | none => decide
    | some s => exact Nat.le_of_eq (congrArg (· + 1) (sourceDigest s).length_bytes)
  have hnone : (Codec.digest.option.write (none.map sourceDigest)).length = 1 := rfl
  simp only [Payload.codec, Codec.via, Codec.length_pair, Payload.of]
  omega

/-- Rules with one code, a score and places at the ends of their ranges, and warnings of each
kind of place. -/
def edgeRules : List Rule :=
  [{ Rule.named "old" with
      ruleType := .bonus
      score := some Int64.minValue
      startLine := 251
      condition := some (.not (.leaf (.comparison
        ⟨"unknown", .eq, .single (.string "it's"), ⟨2 ^ 64 - 1, 2 ^ 32⟩⟩))) },
    { Rule.named "Old" with ruleType := .bonus, startLine := 2 ^ 16 }]

theorem edgeRules_ofBlob_toBlob :
    let r := assemble "EDGE" "OTHER" herdMapping (edgeRules.map (Rule.plan herdMapping))
    compile edgeRules "EDGE" "OTHER" herdMapping = .ok r ∧ r.warnings.length = 5 ∧
      ∃ b, r.toBlob (some "RULE") = .ok b ∧ Ruleset.ofBlob b = .ok r ∧
        ∀ t, sourceMatches b t =
          .ok ((some "RULE").any fun s => Blake3.hash (utf8 s) = Blake3.hash (utf8 t)) := by
  have hcompile : compile edgeRules "EDGE" "OTHER" herdMapping =
      .ok (assemble "EDGE" "OTHER" herdMapping (edgeRules.map (Rule.plan herdMapping))) := by
    rw [compile, herdMapping_usable.check]
    rfl
  refine ⟨hcompile, by decide +kernel, ofBlob_toBlob_compile hcompile (by decide +kernel) _ ?_⟩
  exact Nat.le_trans (length_write_of _ _) (by decide +kernel)

/-! ## From blobs to rulesets -/

theorem ofBlob_eq_ok_payload {p : Payload} (h : Payload.ofBlob b = .ok p) :
    ∃ payload rest, payload.length < 2 ^ 32 ∧ 32 + payload.length ≤ b.length ∧
      Payload.codec.read payload = some (p, rest) ∧ p.check = .ok () := by
  have hlong : 32 ≤ b.length := by
    by_contra hshort
    rw [Payload.ofBlob_of_short (Nat.not_le.1 hshort)] at h
    cases h
  rw [Payload.ofBlob_eq hlong] at h
  cases hjudge : (Header.ofBytes b).judge (b.drop 32) with
  | error e =>
    rw [hjudge] at h
    cases h
  | ok payload =>
    rw [hjudge] at h
    obtain ⟨⟨rest, hread⟩, hcheck⟩ := Payload.ofBytes_eq_ok.1 h
    obtain ⟨hsize, rfl⟩ := Header.of_judge_eq_ok hjudge
    have hlt : (Header.ofBytes b).size < 2 ^ 32 := by
      have := ofLittleEndian_lt (Header.slice b 12 16)
      rwa [Header.length_slice (by omega)] at this
    refine ⟨_, rest, ?_, ?_, hread, hcheck⟩
    · rw [List.length_take]
      omega
    · rw [List.length_drop] at hsize
      rw [List.length_take, List.length_drop]
      omega

theorem ofBlob_isCounted (h : Ruleset.ofBlob b = .ok r) : r.IsCounted := by
  obtain ⟨p, hp, rfl⟩ := Ruleset.ofBlob_eq_ok.1 h
  obtain ⟨_, _, _, _, _, hcheck⟩ := ofBlob_eq_ok_payload hp
  exact (Payload.check_eq_ok.1 hcheck).2.2

/-- The payload without the digest of a script. -/
def Payload.undigested (p : Payload) : Payload := { p with sourceDigest := none }

theorem of_none_eq {p : Payload} (h : p.check = .ok ()) :
    Payload.of p.ruleset none = p.undigested := by
  obtain ⟨hrules, hwarnings, -⟩ := Payload.check_eq_ok.1 h
  rw [Payload.undigested, Payload.of, ← hrules, ← hwarnings]
  rfl

theorem fits_undigested {p : Payload} (h : Payload.codec.Fits p) :
    Payload.codec.Fits p.undigested :=
  ⟨h.1, h.2.1, nofun, h.2.2.2⟩

theorem length_write_undigested (p : Payload) :
    (Payload.codec.write p.undigested).length ≤ (Payload.codec.write p).length := by
  have hnone : (Codec.digest.option.write none).length = 1 := rfl
  have hdigest : 1 ≤ (Codec.digest.option.write p.sourceDigest).length := by
    cases p.sourceDigest <;> simp [Codec.option]
  simp only [Payload.codec, Codec.via, Codec.length_pair, Payload.undigested]
  omega

/-- **What is read can be written again.** Whatever the bytes that a ruleset is read from, its
counts are those of its rules, and its blob is no longer than those bytes and is read as it. -/
theorem ofBlob_rewritable (h : Ruleset.ofBlob b = .ok r) :
    r.totalRules = r.rules.length ∧
      (∀ t, r.countOf t = r.rules.countP (·.ruleType = t)) ∧
      ∃ b', r.toBlob none = .ok b' ∧ b'.length ≤ b.length ∧ Ruleset.ofBlob b' = .ok r := by
  have hcounted := ofBlob_isCounted h
  obtain ⟨p, hp, rfl⟩ := Ruleset.ofBlob_eq_ok.1 h
  obtain ⟨payload, rest, hsize, hlen, hread, hcheck⟩ := ofBlob_eq_ok_payload hp
  have hof := of_none_eq hcheck
  have hfits : Payload.codec.Fits (.of p.ruleset none) :=
    hof ▸ fits_undigested (Payload.codec_lawful.fits_of_read hread)
  have hle : (Payload.codec.write (.of p.ruleset none)).length ≤ payload.length := by
    have := Payload.codec_lawful.length_le_of_read hread
    have := length_write_undigested p
    rw [hof]
    omega
  have hshort : (Payload.codec.write (.of p.ruleset none)).length < 2 ^ 32 := by omega
  refine ⟨hcounted.total, hcounted.ofType, _, Ruleset.toBlob_eq_ok.2 ⟨hshort, rfl⟩, ?_,
    Ruleset.ofBlob_eq_ok.2 ⟨_, ofBlob_withHeader_of hcounted hfits hshort, rfl⟩⟩
  rw [length_withHeader hshort]
  omega

/-- One bonus rule and its score. -/
def bonusRuleset : Ruleset where
  code := "B"
  scope := ""
  totalRules := 1
  inclusionRules := 0
  exclusionRules := 0
  priorityRules := 0
  bonusRules := 1
  eligibilityClause := ""
  exclusionClause := ""
  scoreExpression := ""
  eligibilityQuery := ""
  scoringQuery := ""
  fullQuery := ""
  rules := [⟨"é", "", .bonus, true, some (-1), "", "", ["age"]⟩]
  warnings := []

/-- A payload of the ruleset in wider forms than needed, with a digest, and two bytes too long. -/
def widePayload : Bytes :=
  [251, 1, 0, 252, 0, 0, 0, 0, 1] ++ List.replicate 32 7 ++
    [253, 1, 0, 0, 0, 0, 0, 0, 0, 66, 0, 1, 0, 0, 0, 1, 0, 0, 0, 0, 0, 0] ++
    [251, 1, 0, 2, 195, 169, 0, 252, 3, 0, 0, 0, 1, 1, 251, 1, 0, 0, 0, 1, 3, 97, 103, 101] ++
    [0, 8, 9]

/-- The payload behind a header of another writer, with flags, and followed by more bytes. -/
def wideBlob : Bytes :=
  { Header.of widePayload with engineVersion := 9, flags := 5 }.write ++ (widePayload ++ [1, 2, 3])

theorem wideBlob_rewritable :
    Ruleset.ofBlob wideBlob = .ok bonusRuleset ∧
      bonusRuleset.totalRules = bonusRuleset.rules.length ∧
      (∀ t, bonusRuleset.countOf t = bonusRuleset.rules.countP (·.ruleType = t)) ∧
      ∃ b', bonusRuleset.toBlob none = .ok b' ∧ b'.length ≤ wideBlob.length ∧
        Ruleset.ofBlob b' = .ok bonusRuleset := by
  have hfits : ({ Header.of widePayload with engineVersion := 9, flags := 5 } : Header).Fits :=
    { (Header.of_fits (by decide) : (Header.of widePayload).Fits) with
      engineVersion := by decide
      flags := by decide }
  have hread : Ruleset.ofBlob wideBlob = .ok bonusRuleset := by
    refine Ruleset.ofBlob_eq_ok.2 ⟨⟨1, 0, some ⟨List.replicate 32 7, rfl⟩, bonusRuleset⟩, ?_, rfl⟩
    rw [wideBlob, Payload.ofBlob_eq (by simp [hfits.length_write]), hfits.ofBytes_write,
      List.drop_left' hfits.length_write, Header.judge_eq_ok rfl rfl rfl rfl]
    change Payload.ofBytes widePayload = _
    exact Payload.ofBytes_eq_ok.2 ⟨⟨[8, 9], by decide +kernel⟩, by decide +kernel⟩
  exact ⟨hread, ofBlob_rewritable hread⟩

end Eligibility
