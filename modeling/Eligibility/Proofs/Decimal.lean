import Eligibility.Number.Decimal

/-!
# Whole numbers in decimal

* `all_isDigit_repr`, `toList_repr_ne_nil`: the digits of a natural number;
* **`readNat?_repr`**: the number is read back from them;
* `sign`, `toList_toString`: the text of a whole number;
* `signed`, `readInt?_digits`: what digits behind a sign are read as;
* `readInt?_toString`, **`int64?_toString`**: a whole number is read back from its text.
-/

namespace Eligibility.Decimal

theorem all_isDigit_toDigits (n : Nat) : (Nat.toDigits 10 n).all Char.isDigit = true :=
  List.all_eq_true.2 fun _ hc => Nat.isDigit_of_mem_toDigits (by decide) (by decide) hc

theorem all_isDigit_repr (n : Nat) : n.repr.toList.all Char.isDigit = true := by
  rw [Nat.toList_repr]; exact all_isDigit_toDigits n

theorem toList_repr_ne_nil (n : Nat) : n.repr.toList ≠ [] := by
  rw [Nat.toList_repr]; exact Nat.toDigits_ne_nil

theorem digitsValue_toDigits (n : Nat) : digitsValue (Nat.toDigits 10 n) = n :=
  Nat.ofDigitChars_ten_toDigits

theorem readNat?_repr (n : Nat) : readNat? n.repr.toList = some n := by
  rw [readNat?, if_pos ⟨toList_repr_ne_nil n, all_isDigit_repr n⟩, Nat.toList_repr,
    digitsValue_toDigits]

/-! ## Numbers with a sign -/

theorem readSign_of_isDigit {c : Char} (h : c.isDigit = true) (cs : List Char) :
    readSign (c :: cs) = (false, c :: cs) := by
  unfold readSign
  split
  · rename_i e; cases e; cases h
  · rename_i e; cases e; cases h
  · rfl

/-- The sign of a negative number. -/
def sign (negative : Bool) : List Char := if negative then ['-'] else []

theorem readSign_sign (negative : Bool) {cs : List Char} (h : cs.head?.any Char.isDigit = true) :
    readSign (sign negative ++ cs) = (negative, cs) := by
  cases negative
  · cases cs with
    | nil => cases h
    | cons c cs => exact readSign_of_isDigit h cs
  · rfl

theorem head?_isDigit {cs : List Char} (hne : cs ≠ []) (h : cs.all Char.isDigit = true)
    (ds : List Char) : (cs ++ ds).head?.any Char.isDigit = true := by
  obtain ⟨c, cs, rfl⟩ := List.exists_cons_of_ne_nil hne
  exact (Bool.and_eq_true_iff.1 h).1

theorem head?_repr (n : Nat) : n.repr.toList.head?.any Char.isDigit = true := by
  have := head?_isDigit (toList_repr_ne_nil n) (all_isDigit_repr n) []
  rwa [List.append_nil] at this

theorem toList_toString (i : Int) :
    (toString i).toList = sign (decide (i < 0)) ++ i.natAbs.repr.toList := by
  rw [Int.toString_eq_repr, Int.repr_eq_if]
  by_cases h : 0 ≤ i
  · rw [if_pos h, decide_eq_false (by omega), show i.toNat = i.natAbs by omega]
    rfl
  · rw [if_neg h, decide_eq_true (by omega), show (-i).toNat = i.natAbs by omega,
      String.toList_append]
    rfl

/-- The whole number with a given sign. -/
def signed (negative : Bool) (n : Nat) : Int := if negative then -n else n

theorem signed_natAbs (i : Int) : signed (decide (i < 0)) i.natAbs = i := by
  rw [signed]
  by_cases h : i < 0
  · rw [decide_eq_true h, if_pos rfl]
    omega
  · rw [decide_eq_false h, if_neg Bool.false_ne_true]
    omega

theorem natAbs_signed (negative : Bool) (n : Nat) : (signed negative n).natAbs = n := by
  cases negative
  · exact Int.natAbs_natCast n
  · exact (Int.natAbs_neg _).trans (Int.natAbs_natCast n)

theorem readInt?_digits (negative : Bool) {ds : List Char} (hne : ds ≠ [])
    (h : ds.all Char.isDigit = true) :
    readInt? (sign negative ++ ds) = some (signed negative (digitsValue ds)) := by
  have hhead := head?_isDigit hne h []
  rw [List.append_nil] at hhead
  have hnat : readNat? ds = some (digitsValue ds) := if_pos ⟨hne, h⟩
  rw [readInt?, readSign_sign negative hhead]
  dsimp only
  rw [hnat]
  rfl

theorem int64?_digits (negative : Bool) {ds : List Char} (hne : ds ≠ [])
    (h : ds.all Char.isDigit = true) {s : String} (hs : s.toList = sign negative ++ ds) :
    int64? s =
      if -2 ^ 63 ≤ signed negative (digitsValue ds) ∧ signed negative (digitsValue ds) < 2 ^ 63 then
        some (.ofInt (signed negative (digitsValue ds)))
      else none := by
  rw [int64?, hs, readInt?_digits negative hne h]
  rfl

theorem readInt?_toString (i : Int) : readInt? (toString i).toList = some i := by
  rw [toList_toString, readInt?_digits _ (toList_repr_ne_nil _) (all_isDigit_repr _),
    Nat.toList_repr, digitsValue_toDigits, signed_natAbs]

theorem int64?_toString (n : Int64) : int64? (toString n.toInt) = some n := by
  have hlow := n.le_toInt
  have hhigh := n.toInt_lt
  rw [int64?, readInt?_toString, Option.bind_some, if_pos ⟨hlow, hhigh⟩, Int64.ofInt_toInt]

theorem dot_notMem_sign (negative : Bool) {ds : List Char} (h : ds.all Char.isDigit = true) :
    '.' ∉ sign negative ++ ds := by
  rw [List.mem_append, not_or]
  refine ⟨?_, fun hm => ?_⟩
  · cases negative <;> decide
  · cases List.all_eq_true.1 h _ hm

theorem dot_notMem_toString (i : Int) : '.' ∉ (toString i).toList := by
  rw [toList_toString]
  exact dot_notMem_sign _ (all_isDigit_repr _)

end Eligibility.Decimal
