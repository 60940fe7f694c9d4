import Hotpatch.Digest.Block

/-!
The SHA-3 digests of FIPS 202: a sponge over a permutation of 25 words of 64 bits. Lane `(x, y)`
stands at `x + 5 * y`.
-/

namespace Hotpatch.Digest.Sha3

abbrev State := Array UInt64

def lane (s : State) (x y : Nat) : UInt64 := (s[x % 5 + 5 * (y % 5)]?).getD 0

/-- The state with the given lanes. -/
def ofLanes (f : Nat → Nat → UInt64) : State :=
  ((List.range 25).map fun i => f (i % 5) (i / 5)).toArray

/-- How far each lane is turned. -/
def turns : Array UInt64 := #[
  0, 1, 62, 28, 27, 36, 44, 6, 55, 20, 3, 10, 43, 25, 39, 41, 45, 15, 21, 8, 18, 2, 61, 56, 14]

def roundConstants : List UInt64 := [
  0x0000000000000001, 0x0000000000008082, 0x800000000000808a, 0x8000000080008000,
  0x000000000000808b, 0x0000000080000001, 0x8000000080008081, 0x8000000000008009,
  0x000000000000008a, 0x0000000000000088, 0x0000000080008009, 0x000000008000000a,
  0x000000008000808b, 0x800000000000008b, 0x8000000000008089, 0x8000000000008003,
  0x8000000000008002, 0x8000000000000080, 0x000000000000800a, 0x800000008000000a,
  0x8000000080008081, 0x8000000000008080, 0x0000000080000001, 0x8000000080008008]

def column (s : State) (x : Nat) : UInt64 :=
  lane s x 0 ^^^ lane s x 1 ^^^ lane s x 2 ^^^ lane s x 3 ^^^ lane s x 4

/-- Adds to every lane the columns on both its sides. -/
def theta (s : State) : State :=
  let sums := ((List.range 5).map (column s)).toArray
  let sum (x : Nat) : UInt64 := (sums[x % 5]?).getD 0
  ofLanes fun x y => lane s x y ^^^ sum (x + 4) ^^^ rotateLeft64 (sum (x + 1)) 1

/-- Turns every lane and moves it: what goes to `(x, y)` comes from `(x + 3 * y, x)`. -/
def rhoPi (s : State) : State :=
  ofLanes fun x y => rotateLeft64 (lane s (x + 3 * y) x) ((turns[(x + 3 * y) % 5 + 5 * x]?).getD 0)

def chi (s : State) : State :=
  ofLanes fun x y => lane s x y ^^^ (~~~lane s (x + 1) y &&& lane s (x + 2) y)

def round (s : State) (constant : UInt64) : State :=
  (chi (rhoPi (theta s))).modify 0 (· ^^^ constant)

def permute (s : State) : State := roundConstants.foldl round s

/-- Takes in the block at `base`, of so many bytes. -/
def absorb (rate : Nat) (m : Array UInt8) (s : State) (base : Nat) : State :=
  permute (ofLanes fun x y =>
    let i := x + 5 * y
    if 8 * i < rate then lane s x y ^^^ littleWord64 m (base + 8 * i) else lane s x y)

/-- The message with the bits `01`, a one, zeros and a one that fills its last block. -/
def paddedTo (rate : Nat) (message : Bytes) : Array UInt8 :=
  let free := rate - message.length % rate
  let tail := if free = 1 then [0x86] else 0x06 :: List.replicate (free - 2) 0 ++ [0x80]
  (message ++ tail).toArray

/-- The digest of so many bytes. -/
def hash (size : Nat) (bs : Bytes) : String :=
  let rate := 200 - 2 * size
  let padded := paddedTo rate bs
  let s := overBlocks rate padded (absorb rate padded) (ofLanes fun _ _ => 0)
  hexText ((s.toList.flatMap fun w => littleBytes 8 w.toNat).take size)

end Hotpatch.Digest.Sha3
