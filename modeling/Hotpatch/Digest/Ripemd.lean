import Hotpatch.Digest.Block

/-! The RIPEMD-160 digest: two lines of 80 steps over each block, added up at its end. -/

namespace Hotpatch.Digest.Ripemd

structure State where
  a : UInt32
  b : UInt32
  c : UInt32
  d : UInt32
  e : UInt32

/-- What one of the two lines does in its 80 steps: the word it takes and how far it turns, and,
for each sixteen steps, its constant. -/
structure Line where
  order : Array Nat
  turns : Array UInt32
  constants : Array UInt32
  /-- The function that the steps use, of the five that there are. -/
  function : Nat → Nat

def mix (function : Nat) (x y z : UInt32) : UInt32 :=
  match function with
  | 0 => x ^^^ y ^^^ z
  | 1 => (x &&& y) ||| (~~~x &&& z)
  | 2 => (x ||| ~~~y) ^^^ z
  | 3 => (x &&& z) ||| (y &&& ~~~z)
  | _ => x ^^^ (y ||| ~~~z)

def left : Line where
  order := #[
    0, 1, 2, 3, 4, 5, 6, 7, 8, 9, 10, 11, 12, 13, 14, 15,
    7, 4, 13, 1, 10, 6, 15, 3, 12, 0, 9, 5, 2, 14, 11, 8,
    3, 10, 14, 4, 9, 15, 8, 1, 2, 7, 0, 6, 13, 11, 5, 12,
    1, 9, 11, 10, 0, 8, 12, 4, 13, 3, 7, 15, 14, 5, 6, 2,
    4, 0, 5, 9, 7, 12, 2, 10, 14, 1, 3, 8, 11, 6, 15, 13]
  turns := #[
    11, 14, 15, 12, 5, 8, 7, 9, 11, 13, 14, 15, 6, 7, 9, 8,
    7, 6, 8, 13, 11, 9, 7, 15, 7, 12, 15, 9, 11, 7, 13, 12,
    11, 13, 6, 7, 14, 9, 13, 15, 14, 8, 13, 6, 5, 12, 7, 5,
    11, 12, 14, 15, 14, 15, 9, 8, 9, 14, 5, 6, 8, 6, 5, 12,
    9, 15, 5, 11, 6, 8, 13, 12, 5, 12, 13, 14, 11, 8, 5, 6]
  constants := #[0, 0x5a827999, 0x6ed9eba1, 0x8f1bbcdc, 0xa953fd4e]
  function := id

def right : Line where
  order := #[
    5, 14, 7, 0, 9, 2, 11, 4, 13, 6, 15, 8, 1, 10, 3, 12,
    6, 11, 3, 7, 0, 13, 5, 10, 14, 15, 8, 12, 4, 9, 1, 2,
    15, 5, 1, 3, 7, 14, 6, 9, 11, 8, 12, 2, 10, 0, 4, 13,
    8, 6, 4, 1, 3, 11, 15, 0, 5, 12, 2, 13, 9, 7, 10, 14,
    12, 15, 10, 4, 1, 5, 8, 7, 6, 2, 13, 14, 0, 3, 9, 11]
  turns := #[
    8, 9, 9, 11, 13, 15, 15, 5, 7, 7, 8, 11, 14, 14, 12, 6,
    9, 13, 15, 7, 12, 8, 9, 11, 7, 7, 12, 7, 6, 15, 13, 11,
    9, 7, 15, 11, 8, 6, 6, 14, 12, 13, 5, 14, 13, 13, 7, 5,
    15, 5, 8, 11, 14, 14, 6, 14, 6, 9, 12, 9, 12, 5, 15, 8,
    8, 5, 12, 9, 12, 5, 14, 6, 8, 13, 6, 5, 15, 13, 11, 11]
  constants := #[0x50a28be6, 0x5c4dd124, 0x6d703ef3, 0x7a6d76e9, 0]
  function := (4 - ·)

def step (l : Line) (m : Array UInt8) (base : Nat) (s : State) (i : Nat) : State :=
  let t := s.a + mix (l.function (i / 16)) s.b s.c s.d +
    littleWord32 m (base + 4 * (l.order[i]?).getD 0) + (l.constants[i / 16]?).getD 0
  ⟨s.e, rotateLeft32 t ((l.turns[i]?).getD 0) + s.e, s.b, rotateLeft32 s.c 10, s.d⟩

def compress (m : Array UInt8) (s : State) (base : Nat) : State :=
  let p := (List.range 80).foldl (step left m base) s
  let q := (List.range 80).foldl (step right m base) s
  ⟨s.b + p.c + q.d, s.c + p.d + q.e, s.d + p.e + q.a, s.e + p.a + q.b, s.a + p.b + q.c⟩

def hash (bs : Bytes) : String :=
  let m := padded 64 bs (littleBytes 8 (bs.length * 8))
  let s := overBlocks 64 m (compress m)
    ⟨0x67452301, 0xefcdab89, 0x98badcfe, 0x10325476, 0xc3d2e1f0⟩
  hexText ([s.a, s.b, s.c, s.d, s.e].flatMap fun w => littleBytes 4 w.toNat)

end Hotpatch.Digest.Ripemd
