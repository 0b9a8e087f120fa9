import Mathlib.Data.String.Basic
import Mathlib.Tactic.SplitIfs
import Eligibility.Wire.Bytes

/-!
# The order of texts as bytes

Texts are ordered by their characters, and that is the order of their bytes in UTF-8.

* `Below`: two byte strings are told apart by a byte that both have;
* `spread`, `utf8EncodeChar_eq`: a character as a lead byte and bytes of six bits each;
* `below_utf8EncodeChar`: of two characters, the lower one has the lower bytes;
* **`utf8_lt_iff`**.
-/

namespace Eligibility

/-! ## Byte strings that differ -/

/-- The first byte in which two byte strings differ is lower in the first one. -/
inductive Below : Bytes → Bytes → Prop
  | head {x y : UInt8} {xs ys : Bytes} (h : x < y) : Below (x :: xs) (y :: ys)
  | tail {xs ys : Bytes} (x : UInt8) (h : Below xs ys) : Below (x :: xs) (x :: ys)

theorem Below.append {xs ys : Bytes} (h : Below xs ys) (as bs : Bytes) :
    Below (xs ++ as) (ys ++ bs) := by
  induction h with
  | head h => exact .head h
  | tail x _ ih => exact .tail x ih

theorem Below.lt {xs ys : Bytes} (h : Below xs ys) : xs < ys := by
  induction h with
  | head h => exact List.cons_lt_cons_iff.2 (.inl h)
  | tail x _ ih => exact List.cons_lt_cons_iff.2 (.inr ⟨rfl, ih⟩)

theorem below_concat (bs : Bytes) {x y : UInt8} (h : x < y) : Below (bs ++ [x]) (bs ++ [y]) := by
  induction bs with
  | nil => exact .head h
  | cons b bs ih => exact .tail b ih

theorem ofNat_lt {m n : Nat} (h : m < n) (hn : n < 256) : UInt8.ofNat m < UInt8.ofNat n := by
  rw [UInt8.lt_iff_toNat_lt, UInt8.toNat_ofNat', UInt8.toNat_ofNat']
  omega

/-! ## Characters -/

/-- A number in a lead byte and `k` bytes of six bits each. -/
def spread (lead : Nat) : Nat → Nat → Bytes
  | 0, v => [UInt8.ofNat (v + lead)]
  | k + 1, v => spread lead k (v / 64) ++ [UInt8.ofNat (v % 64 + 128)]

/-- The mark in the lead byte of a character, and how many bytes follow it. -/
def utf8Form (v : Nat) : Nat × Nat :=
  if v ≤ 0x7f then (0, 0)
  else if v ≤ 0x7ff then (0xc0, 1)
  else if v ≤ 0xffff then (0xe0, 2)
  else (0xf0, 3)

theorem spread_eq_cons (lead k v : Nat) :
    ∃ bs, spread lead k v = UInt8.ofNat (v / 64 ^ k + lead) :: bs := by
  induction k generalizing v with
  | zero => exact ⟨[], by simp [spread]⟩
  | succ k ih =>
    obtain ⟨bs, hbs⟩ := ih (v / 64)
    exact ⟨bs ++ [UInt8.ofNat (v % 64 + 128)], by
      rw [spread, hbs, Nat.div_div_eq_div_mul, Nat.pow_succ, Nat.mul_comm 64]; rfl⟩

theorem below_spread {lead k v w : Nat} (h : v < w) (hw : w / 64 ^ k + lead < 256) :
    Below (spread lead k v) (spread lead k w) := by
  induction k generalizing v w with
  | zero => exact .head (ofNat_lt (by omega) (by simpa using hw))
  | succ k ih =>
    have hle : v / 64 ≤ w / 64 := by omega
    rcases Nat.lt_or_eq_of_le hle with hlt | heq
    · have hw' : w / 64 / 64 ^ k + lead < 256 := by
        rwa [Nat.div_div_eq_div_mul, Nat.mul_comm, ← Nat.pow_succ]
      exact (ih hlt hw').append _ _
    · rw [spread, spread, heq]
      exact below_concat _ (ofNat_lt (by omega) (by omega))

theorem char_toNat_lt (c : Char) : c.toNat < 0x110000 := by
  have h := c.valid
  unfold UInt32.isValidChar Nat.isValidChar at h
  exact (show c.val.toNat < 0x110000 by omega)

theorem utf8EncodeChar_eq (c : Char) :
    String.utf8EncodeChar c = spread (utf8Form c.toNat).1 (utf8Form c.toNat).2 c.toNat := by
  have hc : c.toNat < 0x110000 := char_toNat_lt c
  have hval : c.val.toNat = c.toNat := rfl
  rw [String.utf8EncodeChar, hval]
  generalize c.toNat = v at hc
  unfold utf8Form
  split_ifs with h₁ h₂ h₃
  · rfl
  · rw [show v / 64 % 32 = v / 64 by omega]
    rfl
  · rw [show v / 4096 % 16 = v / 64 / 64 by omega]
    rfl
  · rw [show v / 262144 % 8 = v / 64 / 64 / 64 by omega,
      show v / 4096 % 64 = v / 64 / 64 % 64 by omega]
    rfl

/-- Longer characters have higher lead bytes. -/
theorem utf8Form_cases {v w : Nat} (h : v < w) (hw : w < 0x110000) :
    w / 64 ^ (utf8Form w).2 + (utf8Form w).1 < 256 ∧
      (utf8Form v = utf8Form w ∨
        v / 64 ^ (utf8Form v).2 + (utf8Form v).1 < w / 64 ^ (utf8Form w).2 + (utf8Form w).1) := by
  unfold utf8Form
  split_ifs <;> simp <;> omega

/-- **The bytes of characters are ordered as the characters.** -/
theorem below_utf8EncodeChar {c d : Char} (h : c < d) :
    Below (String.utf8EncodeChar c) (String.utf8EncodeChar d) := by
  obtain ⟨hbound, hform⟩ := utf8Form_cases (v := c.toNat) h (char_toNat_lt d)
  rw [utf8EncodeChar_eq, utf8EncodeChar_eq]
  rcases hform with heq | hlt
  · rw [heq]
    exact below_spread h hbound
  · obtain ⟨bs, hbs⟩ := spread_eq_cons (utf8Form c.toNat).1 (utf8Form c.toNat).2 c.toNat
    obtain ⟨bs', hbs'⟩ := spread_eq_cons (utf8Form d.toNat).1 (utf8Form d.toNat).2 d.toNat
    rw [hbs, hbs']
    exact .head (ofNat_lt hlt hbound)

/-! ## Texts -/

theorem utf8_eq (s : String) : utf8 s = s.toList.flatMap String.utf8EncodeChar := by
  conv => lhs; rw [← String.ofList_toList (s := s)]
  rw [utf8, String.toByteArray_ofList, List.utf8Encode, List.data_toByteArray]

theorem flatMap_utf8EncodeChar_lt {cs ds : List Char} (h : cs < ds) :
    cs.flatMap String.utf8EncodeChar < ds.flatMap String.utf8EncodeChar := by
  induction cs generalizing ds with
  | nil =>
    cases ds with
    | nil => exact absurd h (List.not_lt_nil _)
    | cons d ds =>
      obtain ⟨bs, hbs⟩ := spread_eq_cons (utf8Form d.toNat).1 (utf8Form d.toNat).2 d.toNat
      rw [List.flatMap_cons, utf8EncodeChar_eq, hbs]
      exact List.nil_lt_cons _ _
  | cons c cs ih =>
    cases ds with
    | nil => exact absurd h (List.not_lt_nil _)
    | cons d ds =>
      rw [List.flatMap_cons, List.flatMap_cons]
      rcases List.cons_lt_cons_iff.1 h with hlt | ⟨rfl, hlt⟩
      · exact ((below_utf8EncodeChar hlt).append _ _).lt
      · exact List.Lex.append_left _ (ih hlt) _

/-- **Texts are ordered as their bytes.** -/
theorem utf8_lt_iff {s t : String} : utf8 s < utf8 t ↔ s < t := by
  have hmono {s t : String} (h : s < t) : utf8 s < utf8 t := by
    rw [utf8_eq, utf8_eq]
    exact flatMap_utf8EncodeChar_lt (String.lt_iff_toList_lt.1 h)
  refine ⟨fun h => ?_, hmono⟩
  have hst : s < t ∨ s = t ∨ t < s := by grind
  rcases hst with hst | rfl | hst
  · exact hst
  · exact absurd h (List.lt_irrefl _)
  · exact absurd h (List.lt_asymm (hmono hst))

end Eligibility
