import Eligibility.Wire.Number

/-!
# Lists, texts and choices

* **`Codec.list`**: a count, then the elements;
* `Codec.text`: a count of bytes, then the bytes in UTF-8;
* `Codec.flag`: a byte that is zero or one;
* `Codec.choice`: a value as its place among all values of its type.
-/

namespace Eligibility.Codec

variable {α : Type}

/-! ## Lists -/

/-- Read a number of values, one after another. -/
def readMany (c : Codec α) : Nat → Bytes → Option (List α × Bytes)
  | 0, bs => some ([], bs)
  | n + 1, bs =>
    match c.read bs with
    | none => none
    | some (a, rest) => (c.readMany n rest).map fun p => (a :: p.1, p.2)

theorem Lawful.readMany_append {c : Codec α} (hc : c.Lawful) {l : List α}
    (h : ∀ a ∈ l, c.Fits a) (rest : Bytes) :
    c.readMany l.length (l.flatMap c.write ++ rest) = some (l, rest) := by
  induction l with
  | nil => rfl
  | cons a l ih =>
    simp only [List.mem_cons, forall_eq_or_imp] at h
    simp [readMany, hc.read_write h.1, ih h.2]

theorem Lawful.readMany_eq_some {c : Codec α} (hc : c.Lawful) {n : Nat} {bs rest : Bytes}
    {l : List α}
    (h : c.readMany n bs = some (l, rest)) :
    l.length = n ∧ (∀ a ∈ l, c.Fits a) ∧
      (l.flatMap c.write).length + rest.length ≤ bs.length := by
  induction n generalizing bs l with
  | zero =>
    cases h
    simp
  | succ n ih =>
    simp only [readMany] at h
    split at h
    · cases h
    · rename_i a r ha
      obtain ⟨⟨l', r'⟩, hr, he⟩ := Option.map_eq_some_iff.1 h
      cases he
      obtain ⟨hn, hf, hl⟩ := ih hr
      have := hc.length_le_of_read ha
      refine ⟨by simp [hn], by simpa [hc.fits_of_read ha] using hf, ?_⟩
      simp only [List.flatMap_cons, List.length_append] at *
      omega

/-- A count, then as many values. -/
def list (c : Codec α) : Codec (List α) where
  Fits l := l.length < 2 ^ 64 ∧ ∀ a ∈ l, c.Fits a
  write l := natural.write l.length ++ l.flatMap c.write
  read bs :=
    match natural.read bs with
    | none => none
    | some (n, rest) => c.readMany n rest

theorem Lawful.list {c : Codec α} (hc : c.Lawful) : c.list.Lawful where
  read_write h rest := by
    simp [Codec.list, natural_lawful.read_write (natural_fits.2 h.1), hc.readMany_append h.2]
  fits_of_read h := by
    simp only [Codec.list] at h
    split at h
    · cases h
    · rename_i hn
      obtain ⟨rfl, hf, -⟩ := hc.readMany_eq_some h
      exact ⟨natural_fits.1 (natural_lawful.fits_of_read hn), hf⟩
  length_le_of_read h := by
    simp only [Codec.list] at h
    split at h
    · cases h
    · rename_i hn
      obtain ⟨rfl, -, hl⟩ := hc.readMany_eq_some h
      have := natural_lawful.length_le_of_read hn
      simp only [Codec.list, List.length_append] at *
      omega

/-! ## Texts -/

/-- A count, then as many bytes. -/
def bytes : Codec Bytes where
  Fits bs := bs.length < 2 ^ 64
  write bs := natural.write bs.length ++ bs
  read bs :=
    match natural.read bs with
    | none => none
    | some (n, rest) => takeBytes n rest

theorem bytes_lawful : bytes.Lawful where
  read_write h rest := by
    simp [bytes, natural_lawful.read_write (natural_fits.2 h), takeBytes_append rfl]
  fits_of_read h := by
    simp only [bytes] at h
    split at h
    · cases h
    · rename_i hn
      obtain ⟨rfl, -⟩ := eq_append_of_takeBytes h
      exact natural_fits.1 (natural_lawful.fits_of_read hn)
  length_le_of_read h := by
    simp only [bytes] at h
    split at h
    · cases h
    · rename_i hn
      obtain ⟨rfl, rfl⟩ := eq_append_of_takeBytes h
      have := natural_lawful.length_le_of_read hn
      simp only [bytes, List.length_append] at *
      omega

/-- A text; bytes that are not UTF-8 are refused. -/
def text : Codec String := bytes.via utf8 ofUtf8?

theorem text_lawful : text.Lawful :=
  bytes_lawful.via ofUtf8?_utf8 fun _ _ _ => utf8_of_ofUtf8?

/-! ## Choices -/

/-- Zero for no, one for yes. -/
def flag : Codec Bool :=
  byte.via (fun b => if b then 1 else 0)
    fun n => if n = 0 then some false else if n = 1 then some true else none

theorem flag_lawful : flag.Lawful := byte_lawful.via (by decide) (by grind)

/-- A value as its place in a list of all values. -/
def choice [DecidableEq α] (all : List α) : Codec α := index.via (all.idxOf ·) (all[·]?)

theorem choice_lawful [DecidableEq α] {all : List α} (h : ∀ a, a ∈ all) (hd : all.Nodup) :
    (choice all).Lawful := by
  refine (number_lawful 4).via (fun a => ?_) (fun n a _ hn => ?_)
  · have := List.idxOf_lt_length_of_mem (h a)
    rw [List.getElem?_eq_getElem this, List.getElem_idxOf this]
  · obtain ⟨hlt, rfl⟩ := List.getElem?_eq_some_iff.1 hn
    exact hd.idxOf_getElem n hlt

end Eligibility.Codec
