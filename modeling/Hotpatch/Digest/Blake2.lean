import Hotpatch.Digest.Sha2

/-!
The BLAKE2 digests of RFC 7693 at their full size and without a key: BLAKE2b on words of 64 bits,
BLAKE2s on words of 32 bits.
-/

namespace Hotpatch.Digest.Blake2

/-- The order in which a round takes the words of a block; after the tenth the first comes again. -/
def orders : Array (Array Nat) := #[
  #[0, 1, 2, 3, 4, 5, 6, 7, 8, 9, 10, 11, 12, 13, 14, 15],
  #[14, 10, 4, 8, 9, 15, 13, 6, 1, 12, 0, 2, 11, 7, 5, 3],
  #[11, 8, 12, 0, 5, 2, 15, 13, 10, 14, 3, 6, 7, 1, 9, 4],
  #[7, 9, 3, 1, 13, 12, 11, 14, 2, 6, 5, 10, 4, 0, 15, 8],
  #[9, 0, 5, 7, 2, 4, 10, 15, 14, 1, 11, 12, 6, 8, 3, 13],
  #[2, 12, 6, 10, 0, 11, 8, 3, 4, 13, 7, 5, 15, 14, 1, 9],
  #[12, 5, 1, 15, 14, 13, 4, 10, 0, 7, 6, 3, 9, 2, 8, 11],
  #[13, 11, 7, 14, 12, 1, 3, 9, 5, 0, 15, 4, 8, 6, 2, 10],
  #[6, 15, 14, 9, 11, 3, 0, 8, 12, 2, 13, 7, 1, 4, 10, 5],
  #[10, 2, 8, 4, 7, 6, 1, 5, 15, 11, 9, 14, 3, 12, 13, 0]]

/-- The columns and diagonals that a round mixes one after the other. -/
def quarters : List (Nat × Nat × Nat × Nat) := [
  (0, 4, 8, 12), (1, 5, 9, 13), (2, 6, 10, 14), (3, 7, 11, 15),
  (0, 5, 10, 15), (1, 6, 11, 12), (2, 7, 8, 13), (3, 4, 9, 14)]

/-- What sets the two digests apart: their words, their rounds and how far they turn. -/
structure Variant (w : Type) where
  /-- The bytes of a word. -/
  size : Nat
  rounds : Nat
  start : List w
  ofNat : Nat → w
  toNat : w → Nat
  turnRight : w → Nat → w
  turns : Nat × Nat × Nat × Nat

section
variable {w : Type} [Add w] [XorOp w] (k : Variant w)

def entry (v : Array w) (i : Nat) : w := (v[i]?).getD (k.ofNat 0)

def mix (v : Array w) (q : Nat × Nat × Nat × Nat) (x y : w) : Array w :=
  let (i, j, l, n) := q
  let a := entry k v i + entry k v j + x
  let d := k.turnRight (entry k v n ^^^ a) k.turns.1
  let c := entry k v l + d
  let b := k.turnRight (entry k v j ^^^ c) k.turns.2.1
  let a := a + b + y
  let d := k.turnRight (d ^^^ a) k.turns.2.2.1
  let c := c + d
  let b := k.turnRight (b ^^^ c) k.turns.2.2.2
  (((v.setIfInBounds i a).setIfInBounds j b).setIfInBounds l c).setIfInBounds n d

def round (block : Array w) (v : Array w) (r : Nat) : Array w :=
  let order := (orders[r % 10]?).getD #[]
  quarters.zipIdx.foldl (fun v q =>
    let word (n : Nat) := entry k block ((order[n]?).getD 0)
    mix k v q.1 (word (2 * q.2)) (word (2 * q.2 + 1))) v

/-- The words of the block at `base`; behind the end of the message there are zeros. -/
def blockWords (m : Array UInt8) (base : Nat) : Array w :=
  ((List.range 16).map fun i => k.ofNat ((List.range k.size).foldr (fun j n =>
    (byteAt m (base + i * k.size + j)).toNat + 256 * n) 0)).toArray

/-- Takes in the block at `base`, which ends after `count` bytes of the message. -/
def compress (m : Array UInt8) (h : Array w) (base count : Nat) (last : Bool) : Array w :=
  let range := 1 <<< (8 * k.size)
  let v := h ++ k.start.toArray
  let v := v.modify 12 (· ^^^ k.ofNat (count % range))
  let v := v.modify 13 (· ^^^ k.ofNat (count / range))
  let v := if last then v.modify 14 (· ^^^ k.ofNat (range - 1)) else v
  let v := (List.range k.rounds).foldl (round k (blockWords k m base)) v
  ((List.range 8).map fun i => entry k h i ^^^ entry k v i ^^^ entry k v (i + 8)).toArray

def hash (bs : Bytes) : String :=
  let m := bs.toArray
  let block := 16 * k.size
  let full := (m.size - 1) / block
  let start := k.start.toArray.modify 0 (· ^^^ k.ofNat (0x01010000 + 8 * k.size))
  let h := (List.range full).foldl
    (fun h i => compress k m h (i * block) ((i + 1) * block) false) start
  let h := compress k m h (full * block) m.size true
  hexText (h.toList.flatMap fun x => littleBytes k.size (k.toNat x))

end

def wide : Variant UInt64 where
  size := 8
  rounds := 12
  start := Sha2.start512.words
  ofNat := UInt64.ofNat
  toNat := UInt64.toNat
  turnRight := fun x n => rotateRight64 x (UInt64.ofNat n)
  turns := (32, 24, 16, 63)

def narrow : Variant UInt32 where
  size := 4
  rounds := 10
  start := Sha2.start256.words
  ofNat := UInt32.ofNat
  toNat := UInt32.toNat
  turnRight := fun x n => rotateRight32 x (UInt32.ofNat n)
  turns := (16, 12, 8, 7)

end Hotpatch.Digest.Blake2
