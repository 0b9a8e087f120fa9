import Eligibility.Blob.Basic
import Eligibility.Proofs.Ruleset.Counts

/-!
# Headers of blobs

* `Header.slice_set_eq_iff`: replacing a byte changes the slices that it is in;
* `Header.Fits`, **`Header.Fits.ofBytes_write`**: a written header is read back;
* `Header.judge`, `Payload.ofBytes`, **`Payload.ofBlob_eq`**: the header of a blob judges the bytes
  after it, and the payload that it admits is read;
* `Payload.check_eq_ok`: what the counts of a payload are checked for;
* `withHeader`, **`ofBlob_withHeader_append`**: a payload behind its header is read, whatever
  follows it; `Ruleset.toBlob_eq_ok`.
-/

namespace Eligibility

theorem ofLittleEndian_inj {bs cs : Bytes} (hl : bs.length = cs.length) :
    ofLittleEndian bs = ofLittleEndian cs ↔ bs = cs := by
  refine ⟨fun h => ?_, congrArg ofLittleEndian⟩
  induction bs generalizing cs with
  | nil => exact (List.length_eq_zero_iff.1 hl.symm).symm
  | cons b bs ih =>
    cases cs with
    | nil => cases hl
    | cons c cs =>
      have hb := b.toNat_lt
      have hc := c.toNat_lt
      simp only [ofLittleEndian] at h
      have hhead : b = c := UInt8.toNat_inj.1 (by omega)
      have htail : bs = cs := ih (Nat.succ.inj hl) (by omega)
      rw [hhead, htail]

namespace Header

/-! ## Slices -/

section Slice

variable {bs : Bytes} {start stop i : Nat} {x : UInt8}

theorem length_slice (h : stop ≤ bs.length) : (slice bs start stop).length = stop - start := by
  simp only [slice, List.length_take, List.length_drop]
  omega

theorem slice_take {n : Nat} (h : stop ≤ n) :
    slice (bs.take n) start stop = slice bs start stop := by
  rw [slice, slice, List.drop_take, List.take_take, Nat.min_eq_left (by omega)]

theorem getElem?_slice (bs : Bytes) (start stop k : Nat) :
    (slice bs start stop)[k]? = if k < stop - start then bs[start + k]? else none := by
  rw [slice, List.getElem?_take, List.getElem?_drop]

/-- Replacing a byte by another changes the slices that the byte is in, and no others. -/
theorem slice_set_eq_iff (hi : i < bs.length) (hx : x ≠ bs[i]) (start stop : Nat) :
    slice (bs.set i x) start stop = slice bs start stop ↔ ¬ (start ≤ i ∧ i < stop) := by
  constructor
  · rintro h ⟨h₁, h₂⟩
    have hat := congrArg (·[i - start]?) h
    have hk : i - start < stop - start := by omega
    have hsum : start + (i - start) = i := by omega
    simp only [getElem?_slice, hk, if_true, hsum, List.getElem?_set_self hi,
      List.getElem?_eq_getElem hi, Option.some.injEq] at hat
    exact hx hat
  · intro h
    apply List.ext_getElem?
    intro k
    rw [getElem?_slice, getElem?_slice]
    split
    · rw [List.getElem?_set_ne (by omega)]
    · rfl

end Slice

/-! ## Written headers -/

/-- Each field fits into its bytes. -/
structure Fits (h : Header) : Prop where
  magic : h.magic.length = 4
  formatVersion : h.formatVersion < 2 ^ 16
  engineVersion : h.engineVersion < 2 ^ 16
  flags : h.flags < 2 ^ 32
  size : h.size < 2 ^ 32
  checksum : h.checksum.length = 16

variable {h : Header}

theorem Fits.length_write (hf : h.Fits) : h.write.length = 32 := by
  simp [write, hf.magic, hf.checksum]

theorem Fits.ofBytes_write (hf : h.Fits) (body : Bytes) : ofBytes (h.write ++ body) = h := by
  have hm := hf.magic
  have hc := hf.checksum
  have h₁ := ofLittleEndian_littleEndian (k := 2) hf.formatVersion
  have h₂ := ofLittleEndian_littleEndian (k := 2) hf.engineVersion
  have h₃ := ofLittleEndian_littleEndian (k := 4) hf.flags
  have h₄ := ofLittleEndian_littleEndian (k := 4) hf.size
  simp [ofBytes, write, slice, List.drop_append, List.drop_eq_nil_of_le, hm, hc, h₁, h₂, h₃, h₄]

theorem of_fits {payload : Bytes} (h : payload.length < 2 ^ 32) : (of payload).Fits where
  magic := rfl
  formatVersion := (by decide : currentFormat < 2 ^ 16)
  engineVersion := (by decide : currentEngine < 2 ^ 16)
  flags := (by decide : 0 < 2 ^ 32)
  size := h
  checksum := by simp [of, Eligibility.checksum, Digest.length_bytes]

/-! ## Judgements -/

/-- What a header makes of the bytes after it: the payload among them, or what is wrong. -/
def judge (h : Header) (body : Bytes) : Except BlobError Bytes :=
  if h.magic ≠ magicBytes then .error .badMagic
  else if h.formatVersion ≠ currentFormat then .error (.version h.formatVersion)
  else if body.length < h.size then .error (.length h.size body.length)
  else if Eligibility.checksum (body.take h.size) ≠ h.checksum then .error .checksum
  else .ok (body.take h.size)

theorem of_judge_eq_ok {body payload : Bytes} (ha : h.judge body = .ok payload) :
    h.size ≤ body.length ∧ payload = body.take h.size := by
  unfold judge at ha
  split at ha
  · cases ha
  split at ha
  · cases ha
  split at ha
  · cases ha
  split at ha
  · cases ha
  rename_i hsize _
  cases ha
  exact ⟨Nat.not_lt.1 hsize, rfl⟩

/-- A header is good for a payload, whatever its unused fields, and whatever follows the payload. -/
theorem judge_eq_ok {payload : Bytes} (hm : h.magic = magicBytes)
    (hv : h.formatVersion = currentFormat) (hs : h.size = payload.length)
    (hc : h.checksum = Eligibility.checksum payload) (more : Bytes) :
    h.judge (payload ++ more) = .ok payload := by
  simp [judge, hm, hv, hs, hc]

end Header

/-! ## Payloads -/

namespace Payload

/-- The payload whose form is at the front of bytes, if its counts are right. -/
def ofBytes (bs : Bytes) : Except BlobError Payload :=
  match codec.read bs with
  | none => .error .malformed
  | some (p, _) =>
    match p.check with
    | .error i => .error (.inconsistent i)
    | .ok () => .ok p

theorem ofBytes_eq_ok {bs : Bytes} {p : Payload} :
    ofBytes bs = .ok p ↔ (∃ rest, codec.read bs = some (p, rest)) ∧ p.check = .ok () := by
  unfold ofBytes
  constructor
  · intro h
    split at h
    · cases h
    · rename_i q rest hread
      split at h
      · cases h
      · rename_i hcheck
        cases h
        exact ⟨⟨rest, hread⟩, hcheck⟩
  · rintro ⟨⟨rest, hread⟩, hcheck⟩
    simp only [hread, hcheck]

theorem check_eq_ok {p : Payload} :
    p.check = .ok () ↔ p.ruleCount = p.ruleset.rules.length ∧
      p.warningCount = p.ruleset.warnings.length ∧ p.ruleset.IsCounted := by
  have hcheck : p.check = .ok () ↔ p.inconsistencies = [] := by
    unfold check
    split <;> simp_all
  have hone (c : Prop) [Decidable c] (i : Inconsistency) :
      (if c then [] else [i]) = [] ↔ c := by
    split <;> simp_all
  simp only [hcheck, inconsistencies, List.append_eq_nil_iff, List.flatMap_eq_nil_iff, hone]
  constructor
  · rintro ⟨⟨⟨hr, hw⟩, ht⟩, htypes⟩
    exact ⟨hr, hw, ht, fun t => htypes t (RuleType.mem_all t)⟩
  · rintro ⟨hr, hw, ht, htypes⟩
    exact ⟨⟨⟨hr, hw⟩, ht⟩, fun t _ => htypes t⟩

theorem check_of {r : Ruleset} (hr : r.IsCounted) (source : Option String) :
    (of r source).check = .ok () :=
  check_eq_ok.2 ⟨rfl, rfl, hr⟩

theorem ofBytes_write {r : Ruleset} {source : Option String} (hr : r.IsCounted)
    (hf : codec.Fits (of r source)) : ofBytes (codec.write (of r source)) = .ok (of r source) := by
  have hread := codec_lawful.read_write hf []
  rw [List.append_nil] at hread
  exact ofBytes_eq_ok.2 ⟨⟨[], hread⟩, check_of hr source⟩

/-! ## Blobs -/

section Blob

variable {bs : Bytes}

theorem ofBlob_of_short (h : bs.length < 32) : ofBlob bs = .error (.length 32 bs.length) := if_pos h

/-- The header of a blob judges the bytes after it; an admitted payload is read. -/
theorem ofBlob_eq (h : 32 ≤ bs.length) :
    ofBlob bs = (Header.ofBytes bs).judge (bs.drop 32) >>= ofBytes := by
  have hlong : ¬ bs.length < Header.length := Nat.not_lt.2 h
  rw [ofBlob, if_neg hlong]
  simp only [Header.judge, apply_ite (· >>= ofBytes)]
  rfl

theorem ofBlob_of_refused {e : BlobError} (h : 32 ≤ bs.length)
    (he : (Header.ofBytes bs).judge (bs.drop 32) = .error e) : ofBlob bs = .error e := by
  rw [ofBlob_eq h, he]
  rfl

end Blob

end Payload

/-! ## Payloads behind their headers -/

/-- A payload behind its header. -/
def withHeader (payload : Bytes) : Bytes := (Header.of payload).write ++ payload

section WithHeader

variable {payload : Bytes}

theorem length_withHeader (h : payload.length < 2 ^ 32) :
    (withHeader payload).length = 32 + payload.length := by
  rw [withHeader, List.length_append, (Header.of_fits h).length_write]

theorem ofBytes_withHeader (h : payload.length < 2 ^ 32) :
    Header.ofBytes (withHeader payload) = Header.of payload :=
  (Header.of_fits h).ofBytes_write payload

theorem drop_withHeader (h : payload.length < 2 ^ 32) : (withHeader payload).drop 32 = payload :=
  List.drop_left' (Header.of_fits h).length_write

theorem ofBlob_withHeader_append (h : payload.length < 2 ^ 32) (more : Bytes) :
    Payload.ofBlob (withHeader payload ++ more) = Payload.ofBytes payload := by
  have hf := Header.of_fits h
  have hlen : 32 ≤ (withHeader payload ++ more).length := by
    rw [List.length_append, length_withHeader h]
    omega
  rw [Payload.ofBlob_eq hlen, withHeader, List.append_assoc, hf.ofBytes_write,
    List.drop_left' hf.length_write, Header.judge_eq_ok rfl rfl rfl rfl]
  rfl

theorem ofBlob_withHeader (h : payload.length < 2 ^ 32) :
    Payload.ofBlob (withHeader payload) = Payload.ofBytes payload := by
  have := ofBlob_withHeader_append h []
  rwa [List.append_nil] at this

end WithHeader

namespace Ruleset

variable {r : Ruleset} {source : Option String} {b : Bytes}

theorem toBlob_eq_ok :
    r.toBlob source = .ok b ↔ (Payload.codec.write (.of r source)).length < 2 ^ 32 ∧
      b = withHeader (Payload.codec.write (.of r source)) := by
  unfold toBlob
  dsimp only
  split
  · rename_i h
    exact ⟨fun hb => ⟨h, (Except.ok.inj hb).symm⟩, fun hb => congrArg Except.ok hb.2.symm⟩
  · rename_i h
    exact ⟨nofun, fun hb => absurd hb.1 h⟩

theorem ofBlob_eq_ok : ofBlob b = .ok r ↔ ∃ p, Payload.ofBlob b = .ok p ∧ p.ruleset = r := by
  unfold ofBlob
  cases Payload.ofBlob b with
  | error e => exact ⟨nofun, nofun⟩
  | ok p => exact ⟨fun h => ⟨p, rfl, Except.ok.inj h⟩, fun ⟨_, hp, h⟩ => by cases hp; rw [← h]; rfl⟩

theorem ofBlob_of_error {e : BlobError} (h : Payload.ofBlob b = .error e) :
    ofBlob b = .error e := by
  rw [ofBlob, h]
  rfl

end Ruleset

end Eligibility
