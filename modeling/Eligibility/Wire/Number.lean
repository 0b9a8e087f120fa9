import Eligibility.Wire.Codec

/-!
# Numbers of variable length

A number below 251 is one byte. A greater one is a tag followed by two, four or eight bytes, lowest
first; the writer takes the shortest form, the reader any.

* `extent`: how many bytes follow the first one;
* **`Codec.natural`**, `Codec.index`: numbers of eight and of four bytes at most, with
  `number_lawful`;
* `zigzag`, **`Codec.integer`**: signed words, the small ones of either sign first, with
  `integer_lawful`.
-/

namespace Eligibility

/-! ## Forms -/

/-- How many bytes follow the first byte of a number. -/
def extent (n : Nat) : Nat :=
  if n < 251 then 0 else if n < 2 ^ 16 then 2 else if n < 2 ^ 32 then 4 else 8

/-- The first byte of a wide form. -/
def tag (width : Nat) : UInt8 :=
  if width = 2 then 251 else if width = 4 then 252 else 253

/-- How many bytes follow a first byte. -/
def width? (first : UInt8) : Option Nat :=
  if first = 251 then some 2 else if first = 252 then some 4 else if first = 253 then some 8
  else none

def writeNumber (n : Nat) : Bytes :=
  if extent n = 0 then [n.toUInt8] else tag (extent n) :: littleEndian (extent n) n

/-- Read a number whose form is no wider than `widest`. -/
def readNumber (widest : Nat) : Bytes → Option (Nat × Bytes)
  | [] => none
  | b :: rest =>
    if b < 251 then some (b.toNat, rest)
    else
      match width? b with
      | none => none
      | some w =>
        if w ≤ widest then
          (Codec.takeBytes w rest).map fun p => (ofLittleEndian p.1, p.2)
        else none

theorem extent_eq_zero {n : Nat} : extent n = 0 ↔ n < 251 := by
  unfold extent
  grind

theorem length_writeNumber (n : Nat) : (writeNumber n).length = 1 + extent n := by
  unfold writeNumber
  split <;> simp_all [Nat.add_comm]

theorem lt_of_extent {n : Nat} (h : n < 2 ^ 64) (h0 : extent n ≠ 0) : n < 256 ^ extent n := by
  unfold extent at *
  grind

theorem extent_le_of_lt {n w : Nat} (hw : w = 2 ∨ w = 4 ∨ w = 8) (h : n < 256 ^ w) :
    extent n ≤ w := by
  unfold extent
  grind

theorem extent_cases {n : Nat} (h : extent n ≠ 0) : extent n = 2 ∨ extent n = 4 ∨ extent n = 8 := by
  unfold extent at *
  grind

theorem width?_tag {w : Nat} (h : w = 2 ∨ w = 4 ∨ w = 8) : width? (tag w) = some w := by
  rcases h with rfl | rfl | rfl <;> decide

theorem not_tag_lt (w : Nat) : ¬ tag w < 251 := by
  unfold tag
  split
  · decide
  · split <;> decide

theorem width?_cases {b : UInt8} {w : Nat} (h : width? b = some w) : w = 2 ∨ w = 4 ∨ w = 8 := by
  unfold width? at h
  grind

theorem readNumber_writeNumber {widest n : Nat} (h : n < 2 ^ 64) (hw : extent n ≤ widest)
    (rest : Bytes) : readNumber widest (writeNumber n ++ rest) = some (n, rest) := by
  by_cases h0 : extent n = 0
  · have hn := extent_eq_zero.1 h0
    have : n.toUInt8 < 251 := by
      rw [UInt8.lt_iff_toNat_lt]
      simp
      omega
    simp only [writeNumber, h0, if_true, List.cons_append, List.nil_append, readNumber, this]
    simp
    omega
  · simp only [writeNumber, h0, if_false, List.cons_append, readNumber, not_tag_lt,
      width?_tag (extent_cases h0), hw, if_true,
      Codec.takeBytes_append (length_littleEndian (extent n) n), Option.map_some,
      ofLittleEndian_littleEndian (lt_of_extent h h0)]

theorem readNumber_eq_some {widest n : Nat} {bs rest : Bytes}
    (h : readNumber widest bs = some (n, rest)) :
    n < 2 ^ 64 ∧ extent n ≤ widest ∧ (writeNumber n).length + rest.length ≤ bs.length := by
  cases bs with
  | nil => cases h
  | cons b bs =>
    simp only [readNumber] at h
    split at h
    · rename_i hb
      cases h
      have hb : b.toNat < 251 := by simpa [UInt8.lt_iff_toNat_lt] using hb
      have h0 := extent_eq_zero.2 hb
      rw [length_writeNumber, h0]
      simp
      omega
    · split at h
      · cases h
      · rename_i w hw
        split at h
        · obtain ⟨⟨front, r⟩, ht, he⟩ := Option.map_eq_some_iff.1 h
          cases he
          obtain ⟨hl, rfl⟩ := Codec.eq_append_of_takeBytes ht
          have hlt := ofLittleEndian_lt front
          rw [hl] at hlt
          have hx := extent_le_of_lt (width?_cases hw) hlt
          have : 256 ^ w ≤ 2 ^ 64 := by
            rcases width?_cases hw with rfl | rfl | rfl <;> decide
          rw [length_writeNumber]
          simp only [List.length_cons, List.length_append]
          omega
        · cases h

/-! ## Codecs -/

namespace Codec

/-- A number in a form no wider than `widest`. -/
def number (widest : Nat) : Codec Nat where
  Fits n := n < 2 ^ 64 ∧ extent n ≤ widest
  write := writeNumber
  read := readNumber widest

theorem number_lawful (widest : Nat) : (number widest).Lawful where
  read_write h rest := readNumber_writeNumber h.1 h.2 rest
  fits_of_read h := ⟨(readNumber_eq_some h).1, (readNumber_eq_some h).2.1⟩
  length_le_of_read h := (readNumber_eq_some h).2.2

/-- A count, a length or a place. -/
def natural : Codec Nat := number 8

/-- The place of a choice among few. -/
def index : Codec Nat := number 4

theorem natural_lawful : natural.Lawful := number_lawful 8

theorem natural_fits {n : Nat} : natural.Fits n ↔ n < 2 ^ 64 := by
  refine ⟨fun h => h.1, fun h => ⟨h, ?_⟩⟩
  unfold extent
  grind

theorem index_fits {n : Nat} : index.Fits n ↔ n < 2 ^ 32 := by
  refine ⟨fun h => ?_, fun h => ⟨by omega, ?_⟩⟩
  · have := h.2
    unfold extent at this
    grind
  · unfold extent
    grind

/-! ## Signed words -/

/-- The numbers in the order 0, -1, 1, -2, 2, … -/
def zigzag (n : Int64) : Nat :=
  if 0 ≤ n.toInt then 2 * n.toInt.toNat else 2 * (-n.toInt).toNat - 1

def unzigzag (n : Nat) : Int64 :=
  if n % 2 = 0 then Int64.ofNat (n / 2) else Int64.ofInt (-(n / 2 + 1 : Nat))

theorem zigzag_lt (n : Int64) : zigzag n < 2 ^ 64 := by
  have := n.toInt_lt
  have := n.le_toInt
  unfold zigzag
  grind

theorem unzigzag_zigzag (n : Int64) : unzigzag (zigzag n) = n := by
  have := n.toInt_lt
  have := n.le_toInt
  unfold zigzag unzigzag
  split
  · rename_i h
    rw [if_pos (by omega), ← Int64.toInt_inj, Int64.toInt_ofNat_of_lt (by omega)]
    omega
  · rename_i h
    rw [if_neg (by omega), ← Int64.toInt_inj, Int64.toInt_ofInt_of_le (by omega) (by omega)]
    omega

theorem zigzag_unzigzag {n : Nat} (h : n < 2 ^ 64) : zigzag (unzigzag n) = n := by
  unfold zigzag unzigzag
  split
  · rw [Int64.toInt_ofNat_of_lt (by omega)]
    grind
  · rw [Int64.toInt_ofInt_of_le (by omega) (by omega)]
    grind

/-- A signed word. -/
def integer : Codec Int64 := natural.via zigzag fun n => some (unzigzag n)

theorem integer_lawful : integer.Lawful :=
  natural_lawful.via (fun n => congrArg some (unzigzag_zigzag n)) <| by
    rintro n m h ⟨⟩
    exact zigzag_unzigzag (natural_fits.1 h)

end Codec

end Eligibility
