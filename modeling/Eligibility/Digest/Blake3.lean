import Eligibility.Wire.Bytes

/-!
# BLAKE3

The hash of bytes. Chunks of 1024 bytes are the leaves of a binary tree whose left branches are
full; each chunk chains its blocks of 64 bytes, and the root is marked.

* `Digest`: 32 bytes;
* `Blake3.mix`, `round`, `permute`, `Node.output`: compression;
* `Blake3.chunk`, `Blake3.tree`, **`Blake3.hash`**, with `bytes_hash_of_le` for a single block.
-/

namespace Eligibility

/-- A hash of 32 bytes. -/
structure Digest where
  bytes : Bytes
  length_bytes : bytes.length = 32
  deriving DecidableEq, Repr

namespace Blake3

/-- What a node hands to its parent, or a block to the next one. -/
abbrev Chain := Vector UInt32 8

/-- The words of a block, and the state while they are mixed. -/
abbrev Block := Vector UInt32 16

/-! ## Compression -/

def initial : Chain :=
  #v[0x6A09E667, 0xBB67AE85, 0x3C6EF372, 0xA54FF53A, 0x510E527F, 0x9B05688C, 0x1F83D9AB, 0x5BE0CD19]

def rotateRight (w k : UInt32) : UInt32 := (w >>> k) ||| (w <<< (32 - k))

/-- Mix two words of the message into four words of the state. -/
def mix (s : Block) (a b c d : Fin 16) (x y : UInt32) : Block :=
  let p := s[a] + s[b] + x
  let w := rotateRight (s[d] ^^^ p) 16
  let r := s[c] + w
  let q := rotateRight (s[b] ^^^ r) 12
  let p := p + q + y
  let w := rotateRight (w ^^^ p) 8
  let r := r + w
  let q := rotateRight (q ^^^ r) 7
  (((s.set a p).set b q).set c r).set d w

/-- Mix the columns, then the diagonals. -/
def round (m s : Block) : Block :=
  let s := mix s 0 4 8 12 m[0] m[1]
  let s := mix s 1 5 9 13 m[2] m[3]
  let s := mix s 2 6 10 14 m[4] m[5]
  let s := mix s 3 7 11 15 m[6] m[7]
  let s := mix s 0 5 10 15 m[8] m[9]
  let s := mix s 1 6 11 12 m[10] m[11]
  let s := mix s 2 7 8 13 m[12] m[13]
  mix s 3 4 9 14 m[14] m[15]

/-- The order of the message words in the next round. -/
def permute (m : Block) : Block :=
  #v[m[2], m[6], m[3], m[10], m[7], m[0], m[4], m[13],
    m[1], m[11], m[12], m[5], m[9], m[14], m[15], m[8]]

def rounds : Nat → Block → Block → Block
  | 0, _, s => s
  | k + 1, m, s => rounds k (permute m) (round m s)

/-! ## Nodes -/

/-- A use of the compression: the chain so far, a block, and what sets it apart. -/
structure Node where
  chain : Chain
  block : Block
  /-- The number of the chunk; zero for a parent. -/
  counter : Nat
  /-- The bytes in the block. -/
  length : Nat
  flags : UInt32

def chunkStart : UInt32 := 1

def chunkEnd : UInt32 := 2

def parent : UInt32 := 4

def root : UInt32 := 8

/-- The compression of a node, with a further flag. -/
def Node.output (n : Node) (flag : UInt32) : Chain :=
  let s : Block := n.chain ++ #v[initial[0], initial[1], initial[2], initial[3],
    UInt32.ofNat n.counter, UInt32.ofNat (n.counter / 2 ^ 32), UInt32.ofNat n.length,
    n.flags ||| flag]
  let s := rounds 7 n.block s
  Vector.ofFn fun i : Fin 8 => s[i.val] ^^^ s[i.val + 8]

def Node.chainValue (n : Node) : Chain := n.output 0

/-- The words of the first block of bytes; missing bytes are zero. -/
def words (bs : Bytes) : Block :=
  Vector.ofFn fun i : Fin 16 => UInt32.ofNat (ofLittleEndian ((bs.drop (4 * i)).take 4))

/-- The last block of a chunk, after the chain of the blocks before it. -/
def chunk (counter : Nat) (chain : Chain) (start : UInt32) (bs : Bytes) : Node :=
  if bs.length ≤ 64 then ⟨chain, words bs, counter, bs.length, start ||| chunkEnd⟩
  else chunk counter (Node.mk chain (words bs) counter 64 start).chainValue 0 (bs.drop 64)
termination_by bs.length
decreasing_by simp; omega

/-- The bytes under the left branch: the most full chunks that are a power of two in number and
leave some bytes for the right. -/
def leftSize (n : Nat) : Nat := 1024 * 2 ^ ((n - 1) / 1024).log2

theorem leftSize_pos (n : Nat) : 0 < leftSize n :=
  Nat.mul_pos (by decide) (Nat.two_pow_pos _)

theorem leftSize_lt {n : Nat} (h : 1024 < n) : leftSize n < n := by
  have := Nat.log2_self_le (n := (n - 1) / 1024) (by omega)
  have := Nat.mul_le_mul_left 1024 this
  unfold leftSize
  omega

/-- The top node over bytes whose first chunk has the number `counter`. -/
def tree (counter : Nat) (bs : Bytes) : Node :=
  if bs.length ≤ 1024 then chunk counter initial chunkStart bs
  else
    let k := leftSize bs.length
    let left := tree counter (bs.take k)
    let right := tree (counter + k / 1024) (bs.drop k)
    ⟨initial, left.chainValue ++ right.chainValue, 0, 64, parent⟩
termination_by bs.length
decreasing_by
  · have := leftSize_lt (n := bs.length) (by omega)
    simp only [List.length_take]
    omega
  · have := leftSize_pos bs.length
    simp only [List.length_drop]
    omega

/-! ## The hash -/

def hash (bs : Bytes) : Digest where
  bytes := ((tree 0 bs).output root).toList.flatMap fun w => littleEndian 4 w.toNat
  length_bytes := by simp [List.length_flatMap, List.map_const']

theorem chunk_of_le (counter : Nat) (chain : Chain) (start : UInt32) {bs : Bytes}
    (h : bs.length ≤ 64) :
    chunk counter chain start bs = ⟨chain, words bs, counter, bs.length, start ||| chunkEnd⟩ := by
  rw [chunk.eq_def]
  exact if_pos h

theorem tree_of_le (counter : Nat) {bs : Bytes} (h : bs.length ≤ 1024) :
    tree counter bs = chunk counter initial chunkStart bs := by
  rw [tree.eq_def]
  exact if_pos h

theorem bytes_hash_of_le {bs : Bytes} (h : bs.length ≤ 64) :
    (Blake3.hash bs).bytes =
      ((Node.mk initial (words bs) 0 bs.length (chunkStart ||| chunkEnd)).output
        root).toList.flatMap fun w => littleEndian 4 w.toNat := by
  rw [← chunk_of_le 0 initial chunkStart h, ← tree_of_le 0 (Nat.le_trans h (by decide))]
  rfl

end Blake3

end Eligibility
