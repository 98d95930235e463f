import Rebuild.Text.Utf8

/-!
# Digests

The BLAKE3 hash with its default output of 32 bytes, written as 64 lower-case hexadecimal digits.

The input is cut into chunks of 1024 bytes and each chunk into blocks of 64 bytes.  Chunks are the
leaves of a binary tree whose left subtrees are complete; a node hashes the chaining values of its
two children.

* `compress`: the compression function on sixteen words of state;
* `Output`: a node before it is reduced to a chaining value, so that the root can be marked;
* `subtree`: the node above a list of chunks;
* `Digest.ofBytes`, `Digest.ofText`: the digest as text.
-/

namespace Rebuild.Digest

/-- The initial chaining value. -/
def initial : List UInt32 :=
  [0x6A09E667, 0xBB67AE85, 0x3C6EF372, 0xA54FF53A, 0x510E527F, 0x9B05688C, 0x1F83D9AB, 0x5BE0CD19]

/-- The order in which each round reads the message words of the round before. -/
def schedule : List Nat :=
  [2, 6, 3, 10, 7, 0, 4, 13, 1, 11, 12, 5, 9, 14, 15, 8]

def chunkSize : Nat := 1024

def blockSize : Nat := 64

/-- First block of a chunk. -/
def chunkStart : UInt32 := 1

/-- Last block of a chunk. -/
def chunkEnd : UInt32 := 2

/-- A node with two children. -/
def parent : UInt32 := 4

/-- The root of the tree. -/
def root : UInt32 := 8

def rotateRight (x n : UInt32) : UInt32 :=
  (x >>> n) ||| (x <<< (32 - n))

/-- Mix two message words into four words of the state, named by their positions. -/
def mix (v : Array UInt32) (a b c d : Nat) (x y : UInt32) : Array UInt32 :=
  let va := v.getD a 0 + v.getD b 0 + x
  let vd := rotateRight (v.getD d 0 ^^^ va) 16
  let vc := v.getD c 0 + vd
  let vb := rotateRight (v.getD b 0 ^^^ vc) 12
  let va := va + vb + y
  let vd := rotateRight (vd ^^^ va) 8
  let vc := vc + vd
  let vb := rotateRight (vb ^^^ vc) 7
  (((v.setIfInBounds a va).setIfInBounds b vb).setIfInBounds c vc).setIfInBounds d vd

/-- One round: four columns, then four diagonals. -/
def round (m v : Array UInt32) : Array UInt32 :=
  let v := mix v 0 4 8 12 (m.getD 0 0) (m.getD 1 0)
  let v := mix v 1 5 9 13 (m.getD 2 0) (m.getD 3 0)
  let v := mix v 2 6 10 14 (m.getD 4 0) (m.getD 5 0)
  let v := mix v 3 7 11 15 (m.getD 6 0) (m.getD 7 0)
  let v := mix v 0 5 10 15 (m.getD 8 0) (m.getD 9 0)
  let v := mix v 1 6 11 12 (m.getD 10 0) (m.getD 11 0)
  let v := mix v 2 7 8 13 (m.getD 12 0) (m.getD 13 0)
  mix v 3 4 9 14 (m.getD 14 0) (m.getD 15 0)

/-- A number of rounds, with the message permuted between them. -/
def rounds : Nat → Array UInt32 → Array UInt32 → Array UInt32
  | 0, _, v => v
  | n + 1, m, v => rounds n ((schedule.map fun i => m.getD i 0).toArray) (round m v)

/-- The first half of the compression function's output: a chaining value. -/
def compress (cv block : List UInt32) (counter : Nat) (size : Nat) (flags : UInt32) :
    List UInt32 :=
  let low := UInt32.ofNat (counter % 4294967296)
  let high := UInt32.ofNat (counter / 4294967296 % 4294967296)
  let start := cv ++ initial.take 4 ++ [low, high, UInt32.ofNat size, flags]
  let v := (rounds 7 block.toArray start.toArray).toList
  List.zipWith (· ^^^ ·) (v.take 8) (v.drop 8)

/-- Cut a list into pieces of `n` elements; the last piece may be shorter. -/
def pieces {α : Type} (n : Nat) (xs : List α) : List (List α) :=
  if _h : xs = [] ∨ n = 0 then []
  else xs.take n :: pieces n (xs.drop n)
termination_by xs.length
decreasing_by
  have : xs.length ≠ 0 := fun e => _h (Or.inl (List.length_eq_zero_iff.mp e))
  simp only [List.length_drop]
  omega

/-- The word whose bytes, least significant first, are `bytes`. -/
def word (bytes : List UInt8) : UInt32 :=
  bytes.foldr (fun b w => UInt32.ofNat b.toNat ||| (w <<< 8)) 0

/-- The sixteen words of a block, padded with zero bytes. -/
def blockWords (bytes : List UInt8) : List UInt32 :=
  let words := (pieces 4 bytes).map word
  words ++ List.replicate (16 - words.length) 0

/-- A node of the tree before it is reduced to a chaining value. -/
structure Output where
  /-- The chaining value that goes into the last compression. -/
  cv : List UInt32
  /-- The message block of the last compression. -/
  block : List UInt32
  /-- The number of the chunk, or zero for an inner node. -/
  counter : Nat
  /-- The number of message bytes in the block. -/
  size : Nat
  /-- The role of the node. -/
  flags : UInt32

/-- The chaining value of a node below the root. -/
def Output.chain (o : Output) : List UInt32 :=
  compress o.cv o.block o.counter o.size o.flags

/-- The words of the digest, when the node is the root. -/
def Output.digest (o : Output) : List UInt32 :=
  compress o.cv o.block 0 o.size (o.flags ||| root)

/-- Run through the blocks of chunk number `counter`; `start` marks its first block. -/
def chunkFrom (counter : Nat) (cv : List UInt32) (start : UInt32) :
    List (List UInt8) → Output
  | [] => ⟨cv, blockWords [], counter, 0, start ||| chunkEnd⟩
  | [last] => ⟨cv, blockWords last, counter, last.length, start ||| chunkEnd⟩
  | block :: blocks =>
      chunkFrom counter (compress cv (blockWords block) counter block.length start) 0 blocks

/-- The node of a chunk. -/
def chunk (counter : Nat) (bytes : List UInt8) : Output :=
  chunkFrom counter initial chunkStart (pieces blockSize bytes)

/-- The largest power of two below `n`, for `n` above one. -/
def leftCount (n : Nat) : Nat :=
  Nat.pow 2 (n - 1).log2

/-- The left subtree is not empty. -/
theorem leftCount_pos (n : Nat) : 0 < leftCount n :=
  Nat.two_pow_pos _

/-- The left subtree leaves something to the right. -/
theorem leftCount_lt {n : Nat} (h : 1 < n) : leftCount n < n := by
  have : Nat.pow 2 (n - 1).log2 ≤ n - 1 := Nat.log2_self_le (by omega)
  unfold leftCount
  omega

/-- The node above a list of chunks, the first of which has number `counter`. -/
def subtree (counter : Nat) (chunks : List (List UInt8)) : Output :=
  if _h : chunks.length ≤ 1 then chunk counter (chunks.headD [])
  else
    let k := leftCount chunks.length
    let left := subtree counter (chunks.take k)
    let right := subtree (counter + k) (chunks.drop k)
    ⟨initial, left.chain ++ right.chain, 0, blockSize, parent⟩
termination_by chunks.length
decreasing_by
  · have := leftCount_lt (n := chunks.length) (by omega)
    simp only [List.length_take]
    omega
  · have := leftCount_pos chunks.length
    simp only [List.length_drop]
    omega

def hashWords (bytes : List UInt8) : List UInt32 :=
  (subtree 0 (pieces chunkSize bytes)).digest

def hexDigit (n : Nat) : Char :=
  Nat.digitChar (n % 16)

def hexByte (n : Nat) : List Char :=
  [hexDigit (n / 16), hexDigit n]

/-- The bytes of a word, least significant first, in hexadecimal. -/
def hexWord (w : UInt32) : List Char :=
  [0, 8, 16, 24].flatMap fun s => hexByte (w.toNat / Nat.pow 2 s % 256)

/-- The digest of a byte sequence, as 64 lower-case hexadecimal digits. -/
def ofBytes (bytes : List UInt8) : String :=
  String.ofList ((hashWords bytes).flatMap hexWord)

/-- The digest of a text: that of its UTF-8 bytes. -/
def ofText (text : String) : String :=
  ofBytes (Text.Utf8.encode text)

end Rebuild.Digest
