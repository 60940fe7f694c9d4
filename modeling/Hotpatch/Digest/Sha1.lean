import Hotpatch.Digest.Block

/-! The SHA-1 digest of FIPS 180-4. -/

namespace Hotpatch.Digest.Sha1

structure State where
  a : UInt32
  b : UInt32
  c : UInt32
  d : UInt32
  e : UInt32

def schedule (m : Array UInt8) (base : Nat) : Array UInt32 :=
  (List.range 64).foldl (fun w i =>
      let word (k : Nat) : UInt32 := (w[i + k]?).getD 0
      w.push (rotateLeft32 (word 13 ^^^ word 8 ^^^ word 2 ^^^ word 0) 1))
    ((List.range 16).map fun i => bigWord32 m (base + 4 * i)).toArray

def round (w : Array UInt32) (s : State) (i : Nat) : State :=
  let (f, k) :=
    if i < 20 then ((s.b &&& s.c) ||| (~~~s.b &&& s.d), 0x5a827999)
    else if i < 40 then (s.b ^^^ s.c ^^^ s.d, 0x6ed9eba1)
    else if i < 60 then ((s.b &&& s.c) ||| (s.b &&& s.d) ||| (s.c &&& s.d), 0x8f1bbcdc)
    else (s.b ^^^ s.c ^^^ s.d, 0xca62c1d6)
  ⟨rotateLeft32 s.a 5 + f + s.e + k + (w[i]?).getD 0, s.a, rotateLeft32 s.b 30, s.c, s.d⟩

def compress (m : Array UInt8) (s : State) (base : Nat) : State :=
  let r := (List.range 80).foldl (round (schedule m base)) s
  ⟨s.a + r.a, s.b + r.b, s.c + r.c, s.d + r.d, s.e + r.e⟩

def hash (bs : Bytes) : String :=
  let m := padded 64 bs (bigBytes 8 (bs.length * 8))
  let s := overBlocks 64 m (compress m)
    ⟨0x67452301, 0xefcdab89, 0x98badcfe, 0x10325476, 0xc3d2e1f0⟩
  hexText ([s.a, s.b, s.c, s.d, s.e].flatMap fun w => bigBytes 4 w.toNat)

end Hotpatch.Digest.Sha1
