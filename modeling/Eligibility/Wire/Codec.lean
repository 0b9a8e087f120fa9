import Eligibility.Wire.Bytes

/-!
# Codecs

A codec writes values as bytes and reads them back from the front of a byte string.

* `Codec`, **`Codec.Lawful`**: what is written of a value with room in the format is read as that
  value; what is read has room in the format, and takes no more bytes when it is written again;
* `Codec.byte`, `block`, `pair`, `option`, `via`: the ways to build one, all lawful.
-/

namespace Eligibility

/-- A way to write values as bytes, and to read them. -/
structure Codec (α : Type) where
  /-- The values that the format has room for. -/
  Fits : α → Prop
  write : α → Bytes
  /-- The value at the front, and the bytes after it. -/
  read : Bytes → Option (α × Bytes)

namespace Codec

variable {α β : Type}

/-- Reading undoes writing, and writing again does not lengthen what was read. -/
structure Lawful (c : Codec α) : Prop where
  read_write {a : α} (h : c.Fits a) (rest : Bytes) : c.read (c.write a ++ rest) = some (a, rest)
  fits_of_read {bs rest : Bytes} {a : α} (h : c.read bs = some (a, rest)) : c.Fits a
  length_le_of_read {bs rest : Bytes} {a : α} (h : c.read bs = some (a, rest)) :
    (c.write a).length + rest.length ≤ bs.length

/-! ## Bytes -/

/-- One byte. -/
def byte : Codec UInt8 where
  Fits _ := True
  write b := [b]
  read
    | [] => none
    | b :: rest => some (b, rest)

theorem byte_lawful : byte.Lawful where
  read_write _ _ := rfl
  fits_of_read _ := trivial
  length_le_of_read {bs _ _} h := by
    cases bs with
    | nil => cases h
    | cons b bs =>
      cases h
      exact Nat.le_of_eq (Nat.add_comm 1 _)

/-- As many bytes as asked for. -/
def takeBytes (n : Nat) (bs : Bytes) : Option (Bytes × Bytes) :=
  if n ≤ bs.length then some (bs.take n, bs.drop n) else none

theorem takeBytes_append {n : Nat} {bs : Bytes} (h : bs.length = n) (rest : Bytes) :
    takeBytes n (bs ++ rest) = some (bs, rest) := by
  subst h
  simp [takeBytes]

theorem eq_append_of_takeBytes {n : Nat} {bs front rest : Bytes}
    (h : takeBytes n bs = some (front, rest)) : front.length = n ∧ bs = front ++ rest := by
  simp only [takeBytes, Option.ite_none_right_eq_some, Option.some.injEq, Prod.mk.injEq] at h
  obtain ⟨hn, rfl, rfl⟩ := h
  simp [hn]

/-- A fixed count of bytes. -/
def block (n : Nat) : Codec Bytes where
  Fits bs := bs.length = n
  write bs := bs
  read := takeBytes n

theorem block_lawful (n : Nat) : (block n).Lawful where
  read_write h rest := takeBytes_append h rest
  fits_of_read h := (eq_append_of_takeBytes h).1
  length_le_of_read h := by
    rw [(eq_append_of_takeBytes h).2, List.length_append]
    exact Nat.le_refl _

/-! ## Combinations -/

/-- One value after another. -/
def pair (c : Codec α) (d : Codec β) : Codec (α × β) where
  Fits p := c.Fits p.1 ∧ d.Fits p.2
  write p := c.write p.1 ++ d.write p.2
  read bs :=
    match c.read bs with
    | none => none
    | some (a, rest) => (d.read rest).map fun q => ((a, q.1), q.2)

theorem pair_read_eq_some {c : Codec α} {d : Codec β} {bs rest : Bytes} {p : α × β}
    (h : (c.pair d).read bs = some (p, rest)) :
    ∃ middle, c.read bs = some (p.1, middle) ∧ d.read middle = some (p.2, rest) := by
  simp only [pair] at h
  split at h
  · cases h
  · rename_i a middle hc
    obtain ⟨⟨b, r⟩, hd, he⟩ := Option.map_eq_some_iff.1 h
    cases he
    exact ⟨middle, hc, hd⟩

theorem Lawful.pair {c : Codec α} {d : Codec β} (hc : c.Lawful) (hd : d.Lawful) :
    (c.pair d).Lawful where
  read_write h rest := by
    simp [Codec.pair, hc.read_write h.1, hd.read_write h.2]
  fits_of_read h := by
    obtain ⟨middle, h₁, h₂⟩ := pair_read_eq_some h
    exact ⟨hc.fits_of_read h₁, hd.fits_of_read h₂⟩
  length_le_of_read {bs rest p} h := by
    obtain ⟨middle, h₁, h₂⟩ := pair_read_eq_some h
    have := hc.length_le_of_read h₁
    have := hd.length_le_of_read h₂
    have : ((c.pair d).write p).length = (c.write p.1).length + (d.write p.2).length :=
      List.length_append
    omega

/-- The values of another type that stand for values of this one. -/
def via (c : Codec α) (f : β → α) (g : α → Option β) : Codec β where
  Fits b := c.Fits (f b)
  write b := c.write (f b)
  read bs := (c.read bs).bind fun p => (g p.1).map fun b => (b, p.2)

/-- A value has to be found again from what it stands for, and nothing else leads to it. -/
theorem Lawful.via {c : Codec α} {f : β → α} {g : α → Option β} (hc : c.Lawful)
    (hf : ∀ b, g (f b) = some b) (hg : ∀ a b, c.Fits a → g a = some b → f b = a) :
    (c.via f g).Lawful := by
  have key {bs rest : Bytes} {b : β} (h : (c.via f g).read bs = some (b, rest)) :
      c.read bs = some (f b, rest) := by
    obtain ⟨⟨a, r⟩, h₁, h⟩ := Option.bind_eq_some_iff.1 h
    obtain ⟨b', hb, he⟩ := Option.map_eq_some_iff.1 h
    cases he
    rw [hg a b (hc.fits_of_read h₁) hb, h₁]
  exact {
    read_write := fun h rest => by simp [Codec.via, hc.read_write h, hf]
    fits_of_read := fun h => hc.fits_of_read (key h)
    length_le_of_read := fun h => hc.length_le_of_read (key h) }

/-- A byte that says whether a value follows. -/
def option (c : Codec α) : Codec (Option α) where
  Fits o := ∀ a ∈ o, c.Fits a
  write
    | none => [0]
    | some a => 1 :: c.write a
  read
    | [] => none
    | b :: rest =>
      if b = 0 then some (none, rest)
      else if b = 1 then (c.read rest).map fun p => (some p.1, p.2)
      else none

theorem option_read_eq_some {c : Codec α} {bs rest : Bytes} {o : Option α}
    (h : c.option.read bs = some (o, rest)) :
    o = none ∧ bs = 0 :: rest ∨
      ∃ a more, o = some a ∧ bs = 1 :: more ∧ c.read more = some (a, rest) := by
  cases bs with
  | nil => cases h
  | cons b bs =>
    simp only [option] at h
    split at h
    · rename_i hb
      cases h
      exact .inl ⟨rfl, by rw [hb]⟩
    · split at h
      · rename_i hb
        obtain ⟨⟨a, r⟩, h₁, he⟩ := Option.map_eq_some_iff.1 h
        cases he
        exact .inr ⟨a, bs, rfl, by rw [hb], h₁⟩
      · cases h

theorem Lawful.option {c : Codec α} (hc : c.Lawful) : c.option.Lawful where
  read_write {o} h rest := by
    cases o with
    | none => rfl
    | some a => simp [Codec.option, hc.read_write (h a rfl)]
  fits_of_read h := by
    rcases option_read_eq_some h with ⟨rfl, -⟩ | ⟨a, more, rfl, -, h₁⟩
    · intro a ha
      cases ha
    · intro a' ha
      cases ha
      exact hc.fits_of_read h₁
  length_le_of_read h := by
    rcases option_read_eq_some h with ⟨rfl, rfl⟩ | ⟨a, more, rfl, rfl, h₁⟩
    · simp only [Codec.option, List.length_cons, List.length_nil]
      omega
    · have := hc.length_le_of_read h₁
      simp only [Codec.option, List.length_cons]
      omega

end Codec

end Eligibility
