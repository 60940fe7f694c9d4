import Hotpatch.Digest.Sha2

/-! The SM3 digest of GB/T 32905. -/

namespace Hotpatch.Digest.Sm3

abbrev State := Sha2.State UInt32

def schedule (m : Array UInt8) (base : Nat) : Array UInt32 :=
  (List.range 52).foldl (fun w i =>
      let word (k : Nat) : UInt32 := (w[i + k]?).getD 0
      let x := word 0 ^^^ word 7 ^^^ rotateLeft32 (word 13) 15
      w.push ((x ^^^ rotateLeft32 x 15 ^^^ rotateLeft32 x 23) ^^^ rotateLeft32 (word 3) 7 ^^^
        word 10))
    ((List.range 16).map fun i => bigWord32 m (base + 4 * i)).toArray

def round (w : Array UInt32) (s : State) (i : Nat) : State :=
  let word (k : Nat) : UInt32 := (w[k]?).getD 0
  let constant : UInt32 := if i < 16 then 0x79cc4519 else 0x7a879d8a
  let f := if i < 16 then s.a ^^^ s.b ^^^ s.c else (s.a &&& s.b) ||| (s.a &&& s.c) ||| (s.b &&& s.c)
  let g := if i < 16 then s.e ^^^ s.f ^^^ s.g else (s.e &&& s.f) ||| (~~~s.e &&& s.g)
  let a := rotateLeft32 s.a 12
  let x := rotateLeft32 (a + s.e + rotateLeft32 constant (UInt32.ofNat i)) 7
  let t := f + s.d + (x ^^^ a) + (word i ^^^ word (i + 4))
  let u := g + s.h + x + word i
  ⟨t, s.a, rotateLeft32 s.b 9, s.c, u ^^^ rotateLeft32 u 9 ^^^ rotateLeft32 u 17, s.e,
    rotateLeft32 s.f 19, s.g⟩

def compress (m : Array UInt8) (s : State) (base : Nat) : State :=
  let r := (List.range 64).foldl (round (schedule m base)) s
  ⟨s.a ^^^ r.a, s.b ^^^ r.b, s.c ^^^ r.c, s.d ^^^ r.d,
    s.e ^^^ r.e, s.f ^^^ r.f, s.g ^^^ r.g, s.h ^^^ r.h⟩

def start : State := ⟨
  0x7380166f, 0x4914b2b9, 0x172442d7, 0xda8a0600, 0xa96f30bc, 0x163138aa, 0xe38dee4d, 0xb0fb0e4e⟩

def hash (bs : Bytes) : String :=
  let m := padded 64 bs (bigBytes 8 (bs.length * 8))
  hexText ((overBlocks 64 m (compress m) start).words.flatMap fun w => bigBytes 4 w.toNat)

end Hotpatch.Digest.Sm3
