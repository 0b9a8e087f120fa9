import Eligibility.Proofs.Blob.RoundTrip

/-!
# Damaged blobs

Reading checks the length of a blob, the magic bytes, the version, the size of the payload and its
checksum, in this order. Damage is found by the check of the bytes that it hits.

* `ofBlob_take_header`, `ofBlob_take_payload`: a blob that is cut off;
* `Header.magic_set_eq_iff` and its siblings: the field that a replaced byte changes;
* `ofBlob_set_magic`, …, `ofBlob_set_payload`: a blob with a byte replaced, part by part;
* **`toBlob_guards`**: all of it, for the blob of any ruleset;
* `miscountedRuleset_refused`: writing does not check the counts of a ruleset, but reading does.
-/

namespace Eligibility

/-! ## Cuts -/

theorem Header.ofBytes_take {bs : Bytes} {n : Nat} (h : 32 ≤ n) :
    ofBytes (bs.take n) = ofBytes bs := by
  have hslice (start stop : Nat) (hs : stop ≤ 32) :
      slice (bs.take n) start stop = slice bs start stop := slice_take (Nat.le_trans hs h)
  simp only [ofBytes, hslice, Nat.reduceLeDiff]

section Cut

variable {payload : Bytes} {n : Nat}

theorem ofBlob_take_header (hl : payload.length < 2 ^ 32) (hn : n < 32) :
    Payload.ofBlob ((withHeader payload).take n) = .error (.length 32 n) := by
  have hlen : ((withHeader payload).take n).length = n := by
    rw [List.length_take, length_withHeader hl]
    omega
  rw [Payload.ofBlob_of_short (by omega), hlen]

theorem ofBlob_take_payload (hl : payload.length < 2 ^ 32) (h₁ : 32 ≤ n)
    (h₂ : n < 32 + payload.length) :
    Payload.ofBlob ((withHeader payload).take n) =
      .error (.length payload.length (n - 32)) := by
  have hlen : 32 ≤ ((withHeader payload).take n).length := by
    rw [List.length_take, length_withHeader hl]
    omega
  have hbody : ((withHeader payload).take n).drop 32 = payload.take (n - 32) := by
    rw [List.drop_take, drop_withHeader hl]
  have hcut : (payload.take (n - 32)).length = n - 32 := by
    rw [List.length_take]
    omega
  refine Payload.ofBlob_of_refused hlen ?_
  rw [Header.ofBytes_take h₁, ofBytes_withHeader hl, hbody]
  have hshort : n - 32 < payload.length := by omega
  simp [Header.judge, Header.of, hcut, hshort]

end Cut

/-! ## Replaced bytes -/

section Set

variable {payload : Bytes} {i : Nat} {x : UInt8} (hl : payload.length < 2 ^ 32)

include hl in
theorem length_set_withHeader : 32 ≤ ((withHeader payload).set i x).length := by
  rw [List.length_set, length_withHeader hl]
  omega

include hl in
theorem drop_set_withHeader (h : i < 32) : ((withHeader payload).set i x).drop 32 = payload := by
  rw [List.drop_set_of_lt h, drop_withHeader hl]

variable (hi : i < (withHeader payload).length) (hx : x ≠ (withHeader payload)[i])

/-! ### Fields -/

include hi hx in
theorem number_set_eq_iff (start stop : Nat) :
    ofLittleEndian (Header.slice ((withHeader payload).set i x) start stop) =
        ofLittleEndian (Header.slice (withHeader payload) start stop) ↔
      ¬ (start ≤ i ∧ i < stop) := by
  rw [ofLittleEndian_inj (by simp [Header.slice]), Header.slice_set_eq_iff hi hx]

include hl hi hx

theorem magic_set_eq_iff :
    (Header.ofBytes ((withHeader payload).set i x)).magic = Header.magicBytes ↔ ¬ i < 4 := by
  have hfield : Header.slice (withHeader payload) 0 4 = Header.magicBytes :=
    congrArg Header.magic (ofBytes_withHeader hl)
  have hset := Header.slice_set_eq_iff hi hx 0 4
  rw [hfield] at hset
  exact hset.trans (by simp)

theorem formatVersion_set_eq_iff :
    (Header.ofBytes ((withHeader payload).set i x)).formatVersion = Header.currentFormat ↔
      ¬ (4 ≤ i ∧ i < 6) := by
  have hfield : ofLittleEndian (Header.slice (withHeader payload) 4 6) = Header.currentFormat :=
    congrArg Header.formatVersion (ofBytes_withHeader hl)
  have hset := number_set_eq_iff hi hx 4 6
  rw [hfield] at hset
  exact hset

theorem size_set_eq_iff :
    (Header.ofBytes ((withHeader payload).set i x)).size = payload.length ↔
      ¬ (12 ≤ i ∧ i < 16) := by
  have hfield : ofLittleEndian (Header.slice (withHeader payload) 12 16) = payload.length :=
    congrArg Header.size (ofBytes_withHeader hl)
  have hset := number_set_eq_iff hi hx 12 16
  rw [hfield] at hset
  exact hset

theorem checksum_set_eq_iff :
    (Header.ofBytes ((withHeader payload).set i x)).checksum = checksum payload ↔
      ¬ (16 ≤ i ∧ i < 32) := by
  have hfield : Header.slice (withHeader payload) 16 32 = checksum payload :=
    congrArg Header.checksum (ofBytes_withHeader hl)
  have hset := Header.slice_set_eq_iff hi hx 16 32
  rw [hfield] at hset
  exact hset

/-! ### Parts -/

theorem ofBlob_set_magic (h : i < 4) :
    Payload.ofBlob ((withHeader payload).set i x) = .error .badMagic := by
  refine Payload.ofBlob_of_refused (length_set_withHeader hl) (if_pos fun hmagic => ?_)
  exact (magic_set_eq_iff hl hi hx).1 hmagic h

theorem ofBlob_set_version (h₁ : 4 ≤ i) (h₂ : i < 6) :
    ∃ v, v ≠ Header.currentFormat ∧
      Payload.ofBlob ((withHeader payload).set i x) = .error (.version v) := by
  have hmagic := (magic_set_eq_iff hl hi hx).2 (by omega)
  have hversion := mt (formatVersion_set_eq_iff hl hi hx).1 (not_not_intro ⟨h₁, h₂⟩)
  refine ⟨_, hversion, Payload.ofBlob_of_refused (length_set_withHeader hl) ?_⟩
  simp [Header.judge, hmagic, hversion]

/-- The version of the writer and the flags mean nothing. -/
theorem ofBlob_set_unused (h₁ : 6 ≤ i) (h₂ : i < 12) :
    Payload.ofBlob ((withHeader payload).set i x) = Payload.ofBytes payload := by
  have hjudge := Header.judge_eq_ok ((magic_set_eq_iff hl hi hx).2 (by omega))
    ((formatVersion_set_eq_iff hl hi hx).2 (by omega))
    ((size_set_eq_iff hl hi hx).2 (by omega))
    ((checksum_set_eq_iff hl hi hx).2 (by omega)) []
  rw [List.append_nil] at hjudge
  rw [Payload.ofBlob_eq (length_set_withHeader hl), drop_set_withHeader hl (by omega), hjudge]
  rfl

/-- A wrong size reaches beyond the bytes, or cuts the payload short. -/
theorem ofBlob_set_size (h₁ : 12 ≤ i) (h₂ : i < 16) :
    let size := ofLittleEndian (Header.slice ((withHeader payload).set i x) 12 16)
    size ≠ payload.length ∧
      (payload.length < size → Payload.ofBlob ((withHeader payload).set i x) =
        .error (.length size payload.length)) ∧
      (size < payload.length → checksum (payload.take size) ≠ checksum payload →
        Payload.ofBlob ((withHeader payload).set i x) = .error .checksum) := by
  intro size
  have hmagic := (magic_set_eq_iff hl hi hx).2 (by omega)
  have hversion := (formatVersion_set_eq_iff hl hi hx).2 (by omega)
  have hchecksum := (checksum_set_eq_iff hl hi hx).2 (by omega)
  have hsize : (Header.ofBytes ((withHeader payload).set i x)).size = size := rfl
  have hbody : ((withHeader payload).set i x).drop 32 = payload :=
    drop_set_withHeader hl (by omega)
  have hlen := length_set_withHeader (i := i) (x := x) hl
  refine ⟨mt (size_set_eq_iff hl hi hx).1 (not_not_intro ⟨h₁, h₂⟩), fun hlong => ?_,
    fun hshort hne => ?_⟩
  · refine Payload.ofBlob_of_refused hlen ?_
    simp [Header.judge, hmagic, hversion, hbody, hsize, hlong]
  · refine Payload.ofBlob_of_refused hlen ?_
    simp [Header.judge, hmagic, hversion, hchecksum, hbody, hsize, Nat.le_of_lt hshort, hne]

theorem ofBlob_set_checksum (h₁ : 16 ≤ i) (h₂ : i < 32) :
    Payload.ofBlob ((withHeader payload).set i x) = .error .checksum := by
  have hmagic := (magic_set_eq_iff hl hi hx).2 (by omega)
  have hversion := (formatVersion_set_eq_iff hl hi hx).2 (by omega)
  have hsize := (size_set_eq_iff hl hi hx).2 (by omega)
  have hchecksum := mt (checksum_set_eq_iff hl hi hx).1 (not_not_intro ⟨h₁, h₂⟩)
  refine Payload.ofBlob_of_refused (length_set_withHeader hl) ?_
  simp [Header.judge, hmagic, hversion, drop_set_withHeader hl h₂, hsize, Ne.symm hchecksum]

theorem ofBlob_set_payload (h : 32 ≤ i)
    (hne : checksum (payload.set (i - 32) x) ≠ checksum payload) :
    Payload.ofBlob ((withHeader payload).set i x) = .error .checksum := by
  have hmagic := (magic_set_eq_iff hl hi hx).2 (by omega)
  have hversion := (formatVersion_set_eq_iff hl hi hx).2 (by omega)
  have hsize := (size_set_eq_iff hl hi hx).2 (by omega)
  have hchecksum := (checksum_set_eq_iff hl hi hx).2 (by omega)
  have hbody : ((withHeader payload).set i x).drop 32 = payload.set (i - 32) x := by
    rw [List.drop_set, if_neg (Nat.not_lt.2 h), drop_withHeader hl]
  have htake : (payload.set (i - 32) x).take payload.length = payload.set (i - 32) x :=
    List.take_of_length_le (by simp)
  refine Payload.ofBlob_of_refused (length_set_withHeader hl) ?_
  simp [Header.judge, hmagic, hversion, hbody, hsize, htake, hchecksum, hne]

end Set

/-! ## Blobs of rulesets -/

/-- **Damage to a blob is found** by the check of the part that it is in. The version of the writer,
the flags and what follows the blob mean nothing; a blob gives the ruleset back just in case that is
counted. -/
theorem toBlob_guards {r : Ruleset} {source : Option String} {b : Bytes}
    (hw : ∀ w ∈ r.warnings, w.position.InWords) (h : r.toBlob source = .ok b) :
    let payload := Payload.codec.write (.of r source)
    b.length = 32 + payload.length ∧
      (∀ n < 32, Ruleset.ofBlob (b.take n) = .error (.length 32 n)) ∧
      (∀ n, 32 ≤ n → n < 32 + payload.length →
        Ruleset.ofBlob (b.take n) = .error (.length payload.length (n - 32))) ∧
      (∀ more, Ruleset.ofBlob (b ++ more) = Ruleset.ofBlob b) ∧
      (Ruleset.ofBlob b = .ok r ↔ r.IsCounted) ∧
      ∀ (i : Nat) (hi : i < b.length) (x : UInt8), x ≠ b[i] →
        let damaged := b.set i x
        (i < 4 → Ruleset.ofBlob damaged = .error .badMagic) ∧
        (4 ≤ i → i < 6 → ∃ v, v ≠ 1 ∧ Ruleset.ofBlob damaged = .error (.version v)) ∧
        (6 ≤ i → i < 12 → Ruleset.ofBlob damaged = Ruleset.ofBlob b) ∧
        (12 ≤ i → i < 16 →
          let size := ofLittleEndian (Header.slice damaged 12 16)
          size ≠ payload.length ∧
            (payload.length < size →
              Ruleset.ofBlob damaged = .error (.length size payload.length)) ∧
            (size < payload.length → checksum (payload.take size) ≠ checksum payload →
              Ruleset.ofBlob damaged = .error .checksum)) ∧
        (16 ≤ i → i < 32 → Ruleset.ofBlob damaged = .error .checksum) ∧
        (32 ≤ i → checksum (payload.set (i - 32) x) ≠ checksum payload →
          Ruleset.ofBlob damaged = .error .checksum) := by
  obtain ⟨hl, rfl⟩ := Ruleset.toBlob_eq_ok.1 h
  have hblob := ofBlob_withHeader hl
  refine ⟨length_withHeader hl, fun n hn => Ruleset.ofBlob_of_error (ofBlob_take_header hl hn),
    fun n h₁ h₂ => Ruleset.ofBlob_of_error (ofBlob_take_payload hl h₁ h₂), fun more => ?_, ?_,
    fun i hi x hx => ⟨?_, ?_, ?_, ?_, ?_, ?_⟩⟩
  · rw [Ruleset.ofBlob, ofBlob_withHeader_append hl, Ruleset.ofBlob, hblob]
  · constructor
    · exact ofBlob_isCounted
    · intro hr
      have hf : Payload.codec.Fits (.of r source) := Payload.fits_of hr hw (by omega)
      exact Ruleset.ofBlob_eq_ok.2 ⟨_, ofBlob_withHeader_of hr hf hl, rfl⟩
  · exact fun hmagic => Ruleset.ofBlob_of_error (ofBlob_set_magic hl hi hx hmagic)
  · intro h₁ h₂
    obtain ⟨v, hv, hread⟩ := ofBlob_set_version hl hi hx h₁ h₂
    exact ⟨v, hv, Ruleset.ofBlob_of_error hread⟩
  · intro h₁ h₂
    rw [Ruleset.ofBlob, ofBlob_set_unused hl hi hx h₁ h₂, Ruleset.ofBlob, hblob]
  · intro h₁ h₂
    obtain ⟨hne, hlong, hshort⟩ := ofBlob_set_size hl hi hx h₁ h₂
    exact ⟨hne, fun hs => Ruleset.ofBlob_of_error (hlong hs),
      fun hs hc => Ruleset.ofBlob_of_error (hshort hs hc)⟩
  · exact fun h₁ h₂ => Ruleset.ofBlob_of_error (ofBlob_set_checksum hl hi hx h₁ h₂)
  · exact fun h₁ hc => Ruleset.ofBlob_of_error (ofBlob_set_payload hl hi hx h₁ hc)

/-- The payload of `bonusRuleset`. -/
def bonusPayload : Bytes :=
  [1, 0, 0, 1, 66, 0, 1, 0, 0, 0, 1, 0, 0, 0, 0, 0, 0, 1, 2, 195, 169, 0, 3, 1, 1, 1, 0, 0, 1, 3,
    97, 103, 101, 0]

/-- The first half of its hash. -/
def bonusChecksum : Bytes :=
  [158, 100, 48, 239, 131, 218, 197, 236, 96, 244, 69, 184, 121, 115, 38, 245]

/-- The blob of `bonusRuleset`. -/
def bonusBlob : Bytes :=
  [0x52, 0x53, 0x51, 0x4C, 1, 0, 1, 0, 0, 0, 0, 0, 34, 0, 0, 0] ++ bonusChecksum ++ bonusPayload

theorem write_bonusRuleset : Payload.codec.write (.of bonusRuleset none) = bonusPayload := by
  decide +kernel

theorem checksum_of_le {payload : Bytes} (h : payload.length ≤ 64) :
    checksum payload = List.take 16 (((Blake3.Node.mk Blake3.initial (Blake3.words payload) 0
      payload.length (Blake3.chunkStart ||| Blake3.chunkEnd)).output Blake3.root).toList.flatMap
        fun w => littleEndian 4 w.toNat) := by
  rw [checksum, Blake3.bytes_hash_of_le h]

theorem checksum_bonusPayload : checksum bonusPayload = bonusChecksum := by
  rw [checksum_of_le (by decide)]
  decide +kernel

theorem toBlob_bonusRuleset : bonusRuleset.toBlob none = .ok bonusBlob := by
  rw [Ruleset.toBlob_eq_ok, write_bonusRuleset]
  refine ⟨by decide, ?_⟩
  rw [withHeader, Header.of, Header.write, checksum_bonusPayload]
  decide +kernel

theorem bonusBlob_guards :
    bonusRuleset.toBlob none = .ok bonusBlob ∧
      Ruleset.ofBlob (bonusBlob.take 31) = .error (.length 32 31) ∧
      Ruleset.ofBlob (bonusBlob.take 65) = .error (.length 34 33) ∧
      Ruleset.ofBlob (bonusBlob ++ [0]) = .ok bonusRuleset ∧
      Ruleset.ofBlob (bonusBlob.set 3 0) = .error .badMagic ∧
      (∃ v, v ≠ 1 ∧ Ruleset.ofBlob (bonusBlob.set 5 1) = .error (.version v)) ∧
      Ruleset.ofBlob (bonusBlob.set 8 255) = .ok bonusRuleset ∧
      Ruleset.ofBlob (bonusBlob.set 15 1) = .error (.length (2 ^ 24 + 34) 34) ∧
      Ruleset.ofBlob (bonusBlob.set 12 33) = .error .checksum ∧
      Ruleset.ofBlob (bonusBlob.set 31 0) = .error .checksum ∧
      Ruleset.ofBlob (bonusBlob.set 65 1) = .error .checksum := by
  have hguards := toBlob_guards (r := bonusRuleset) nofun toBlob_bonusRuleset
  simp only [write_bonusRuleset] at hguards
  obtain ⟨-, hheader, hcut, hmore, hread, hset⟩ := hguards
  have hok : Ruleset.ofBlob bonusBlob = .ok bonusRuleset :=
    hread.2 ⟨rfl, fun t => by cases t <;> decide⟩
  refine ⟨toBlob_bonusRuleset, hheader 31 (by decide), hcut 65 (by decide) (by decide),
    (hmore [0]).trans hok, (hset 3 (by decide) 0 (by decide)).1 (by decide),
    (hset 5 (by decide) 1 (by decide)).2.1 (by decide) (by decide),
    ((hset 8 (by decide) 255 (by decide)).2.2.1 (by decide) (by decide)).trans hok,
    ((hset 15 (by decide) 1 (by decide)).2.2.2.1 (by decide) (by decide)).2.1 (by decide),
    ((hset 12 (by decide) 33 (by decide)).2.2.2.1 (by decide) (by decide)).2.2 (by decide) ?_,
    (hset 31 (by decide) 0 (by decide)).2.2.2.2.1 (by decide) (by decide),
    (hset 65 (by decide) 1 (by decide)).2.2.2.2.2 (by decide) ?_⟩
  · rw [checksum_bonusPayload, checksum_of_le (by decide)]
    decide +kernel
  · rw [checksum_bonusPayload, checksum_of_le (by decide)]
    decide +kernel

/-- A ruleset of one rule that says that it has seven. -/
def miscountedRuleset : Ruleset := { bonusRuleset with totalRules := 7 }

/-- Its blob is written, and refused whatever is appended to it or put in the place of an unused
byte. -/
theorem miscountedRuleset_refused :
    ∃ b, miscountedRuleset.toBlob none = .ok b ∧
      (∀ more, Ruleset.ofBlob (b ++ more) = .error (.inconsistent (.total 7 1))) ∧
      ∀ (i : Nat) (hi : i < b.length) (x : UInt8), x ≠ b[i] → 6 ≤ i → i < 12 →
        Ruleset.ofBlob (b.set i x) = .error (.inconsistent (.total 7 1)) := by
  have hl : (Payload.codec.write (.of miscountedRuleset none)).length < 2 ^ 32 := by
    decide +kernel
  have hread : Payload.ofBytes (Payload.codec.write (.of miscountedRuleset none)) =
      .error (.inconsistent (.total 7 1)) := by rfl
  refine ⟨_, Ruleset.toBlob_eq_ok.2 ⟨hl, rfl⟩, fun more => ?_, fun i hi x hx h₁ h₂ => ?_⟩
  · exact Ruleset.ofBlob_of_error ((ofBlob_withHeader_append hl more).trans hread)
  · exact Ruleset.ofBlob_of_error ((ofBlob_set_unused hl hi hx h₁ h₂).trans hread)

end Eligibility
