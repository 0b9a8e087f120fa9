import Eligibility.Blob.Payload

/-!
# Blobs

A ruleset as bytes: a header of 32 bytes, then the payload. The header holds four magic bytes, the
versions of the format and of the writer, unused flags, the size of the payload and the first half
of its hash. Bytes after the payload mean nothing.

* `Header`, `Header.write`, `Header.ofBytes`;
* **`Ruleset.toBlob`**, with `OversizedPayload`;
* `BlobError`, `Payload.ofBlob`, **`Ruleset.ofBlob`**, **`sourceMatches`**.
-/

namespace Eligibility

/-! ## Headers -/

/-- The front of a blob. -/
structure Header where
  magic : Bytes
  formatVersion : Nat
  engineVersion : Nat
  flags : Nat
  /-- The bytes of the payload. -/
  size : Nat
  checksum : Bytes
  deriving DecidableEq, Repr

/-- The first half of the hash of a payload. -/
def checksum (payload : Bytes) : Bytes := (Blake3.hash payload).bytes.take 16

namespace Header

/-- The bytes of a header. -/
def length : Nat := 32

/-- The letters `RSQL`. -/
def magicBytes : Bytes := [0x52, 0x53, 0x51, 0x4C]

def currentFormat : Nat := 1

def currentEngine : Nat := 1

/-- The header of a payload. -/
def of (payload : Bytes) : Header where
  magic := magicBytes
  formatVersion := currentFormat
  engineVersion := currentEngine
  flags := 0
  size := payload.length
  checksum := Eligibility.checksum payload

def write (h : Header) : Bytes :=
  h.magic ++ littleEndian 2 h.formatVersion ++ littleEndian 2 h.engineVersion ++
    littleEndian 4 h.flags ++ littleEndian 4 h.size ++ h.checksum

/-- The bytes from `start` up to `stop`. -/
def slice (bs : Bytes) (start stop : Nat) : Bytes := (bs.drop start).take (stop - start)

/-- The header at the front of a blob that is long enough. -/
def ofBytes (bs : Bytes) : Header where
  magic := slice bs 0 4
  formatVersion := ofLittleEndian (slice bs 4 6)
  engineVersion := ofLittleEndian (slice bs 6 8)
  flags := ofLittleEndian (slice bs 8 12)
  size := ofLittleEndian (slice bs 12 16)
  checksum := slice bs 16 32

end Header

/-! ## Writing -/

/-- A payload whose size does not fit into the header. -/
structure OversizedPayload where
  size : Nat
  deriving DecidableEq, Repr

def OversizedPayload.message (e : OversizedPayload) : String :=
  s!"payload of {e.size} bytes exceeds the 4 GiB format limit"

/-- The blob of a ruleset; the script that it comes from may be given to be recognised later. -/
def Ruleset.toBlob (r : Ruleset) (source : Option String) : Except OversizedPayload Bytes :=
  let payload := Payload.codec.write (.of r source)
  if payload.length < 2 ^ 32 then .ok ((Header.of payload).write ++ payload)
  else .error ⟨payload.length⟩

/-! ## Reading -/

/-- Why bytes are not a blob. -/
inductive BlobError where
  | badMagic
  | version (found : Nat)
  | checksum
  | length (expected actual : Nat)
  /-- The payload is not the form of any ruleset. -/
  | malformed
  | inconsistent (i : Inconsistency)
  deriving DecidableEq, Repr

def BlobError.message : BlobError → String
  | badMagic => "not a compiled rulescript binary: invalid magic bytes"
  | version v =>
    s!"incompatible format version: blob is v{v}, engine supports v{Header.currentFormat}"
  | checksum => "integrity check failed: BLAKE3 checksum mismatch"
  | length e a => s!"payload length mismatch: expected {e} bytes, got {a}"
  | malformed => "failed to decode payload"
  | inconsistent i => s!"validation failed: {i.message}"

/-- The payload of a blob. Its header is checked field by field, then the hash of the payload, its
form, and its counts. -/
def Payload.ofBlob (bs : Bytes) : Except BlobError Payload :=
  let header := Header.ofBytes bs
  let body := bs.drop Header.length
  let payload := body.take header.size
  if bs.length < Header.length then .error (.length Header.length bs.length)
  else if header.magic ≠ Header.magicBytes then .error .badMagic
  else if header.formatVersion ≠ Header.currentFormat then .error (.version header.formatVersion)
  else if body.length < header.size then .error (.length header.size body.length)
  else if checksum payload ≠ header.checksum then .error .checksum
  else
    match Payload.codec.read payload with
    | none => .error .malformed
    | some (p, _) =>
      match p.check with
      | .error i => .error (.inconsistent i)
      | .ok () => .ok p

/-- The ruleset of a blob. -/
def Ruleset.ofBlob (bs : Bytes) : Except BlobError Ruleset := (·.ruleset) <$> Payload.ofBlob bs

/-- Whether a blob comes from a script; one that does not say so matches none. -/
def sourceMatches (bs : Bytes) (script : String) : Except BlobError Bool :=
  (·.sourceDigest == some (sourceDigest script)) <$> Payload.ofBlob bs

end Eligibility
