import Hotpatch.Text.Utf8

/-!
Decompression of zlib streams (RFC 1950) with deflated data (RFC 1951). A stream that ends early or
breaks the format still gives what was read of it until then.
-/

namespace Hotpatch.Inflate

inductive Stop where
  | ended | truncated | corrupt
  deriving DecidableEq, Repr

/-- The position in the stream, counted in bits, and what is decompressed. -/
structure State where
  pos : Nat
  out : Array UInt8

abbrev Read := ReaderT (Array UInt8) (ExceptT Stop (StateM State))

def bit : Read Nat := do
  let s ← get
  match (← read)[s.pos / 8]? with
  | none => throw .truncated
  | some b =>
    set { s with pos := s.pos + 1 }
    return (b.toNat >>> (s.pos % 8)) % 2

/-- A number of `n` bits, the lowest first. -/
def bits : Nat → Read Nat
  | 0 => return 0
  | n + 1 => do
    let b ← bit
    return b + 2 * (← bits n)

def byteAligned : Read Unit := modify fun s => { s with pos := (s.pos + 7) / 8 * 8 }

def emit (b : UInt8) : Read Unit := modify fun s => { s with out := s.out.push b }

/-- A canonical code: for each length from 1 on the symbols with codes of that length. -/
abbrev Code := List (List Nat)

def codeOf (lengths : List Nat) : Code :=
  (List.range 15).map fun l =>
    (lengths.zipIdx.filter fun p => p.1 = l + 1).map Prod.snd

/-- Whether the codes of all lengths fit, and whether they use all there are. -/
def slack (c : Code) : Int := c.foldl (fun left syms => 2 * left - syms.length) 1

def fits : Code → Int → Bool
  | [], _ => true
  | syms :: c, left => syms.length ≤ 2 * left && fits c (2 * left - syms.length)

/-- One symbol: the codes of a length follow those of the length before. -/
def symbol : Code → (code first : Nat) → Read Nat
  | [], _, _ => throw .corrupt
  | syms :: c, code, first => do
    let code := 2 * code + (← bit)
    let first := 2 * first
    match syms[code - first]? with
    | some s => if first ≤ code then return s else symbol c code (first + syms.length)
    | none => symbol c code (first + syms.length)

def lengthBases : Array (Nat × Nat) := #[
  (3, 0), (4, 0), (5, 0), (6, 0), (7, 0), (8, 0), (9, 0), (10, 0), (11, 1), (13, 1), (15, 1),
  (17, 1), (19, 2), (23, 2), (27, 2), (31, 2), (35, 3), (43, 3), (51, 3), (59, 3), (67, 4), (83, 4),
  (99, 4), (115, 4), (131, 5), (163, 5), (195, 5), (227, 5), (258, 0)]

def distanceBases : Array (Nat × Nat) := #[
  (1, 0), (2, 0), (3, 0), (4, 0), (5, 1), (7, 1), (9, 2), (13, 2), (17, 3), (25, 3), (33, 4),
  (49, 4), (65, 5), (97, 5), (129, 6), (193, 6), (257, 7), (385, 7), (513, 8), (769, 8), (1025, 9),
  (1537, 9), (2049, 10), (3073, 10), (4097, 11), (6145, 11), (8193, 12), (12289, 12), (16385, 13),
  (24577, 13)]

/-- A base and the extra bits that are added to it. -/
def extended (table : Array (Nat × Nat)) (i : Nat) : Read Nat := do
  match table[i]? with
  | none => throw .corrupt
  | some (base, extra) => return base + (← bits extra)

/-- Repeats what was put out `distance` bytes before. -/
def copy (distance : Nat) : Nat → Read Unit
  | 0 => return
  | n + 1 => do
    let s ← get
    match s.out[s.out.size - distance]? with
    | none => throw .corrupt
    | some b =>
      emit b
      copy distance n

/-- The symbols of a block until its end; every one takes a bit, so `fuel` bits suffice. -/
def block (literals distances : Code) : Nat → Read Unit
  | 0 => throw .corrupt
  | fuel + 1 => do
    let s ← symbol literals 0 0
    if s < 256 then
      emit (UInt8.ofNat s)
      block literals distances fuel
    else if s = 256 then return
    else
      let length ← extended lengthBases (s - 257)
      let distance ← extended distanceBases (← symbol distances 0 0)
      if distance > (← get).out.size then throw .corrupt
      copy distance length
      block literals distances fuel

def fixedLiterals : Code :=
  codeOf (List.replicate 144 8 ++ List.replicate 112 9 ++ List.replicate 24 7 ++ List.replicate 8 8)

def fixedDistances : Code := codeOf (List.replicate 30 5)

def lengthOrder : List Nat := [16, 17, 18, 0, 8, 7, 9, 6, 10, 5, 11, 4, 12, 3, 13, 2, 14, 1, 15]

/-- The code lengths of a block, newest first, until `want` of them are there. -/
def codeLengths (c : Code) (want : Nat) : Nat → List Nat → Read (List Nat)
  | 0, _ => throw .corrupt
  | fuel + 1, ls => do
    if ls.length > want then throw .corrupt
    if ls.length = want then return ls.reverse
    let s ← symbol c 0 0
    if s < 16 then codeLengths c want fuel (s :: ls)
    else if s = 16 then
      match ls with
      | [] => throw .corrupt
      | l :: _ => codeLengths c want fuel (List.replicate (3 + (← bits 2)) l ++ ls)
    else if s = 17 then codeLengths c want fuel (List.replicate (3 + (← bits 3)) 0 ++ ls)
    else codeLengths c want fuel (List.replicate (11 + (← bits 7)) 0 ++ ls)

/-- A code that is used has to use all codes there are; a single code of one bit is allowed. -/
def usable (c : Code) : Bool :=
  fits c 1 && (slack c = 0 || (c.flatMap id).length ≤ 1)

def dynamicCodes : Read (Code × Code) := do
  let literals := 257 + (← bits 5)
  let distances := 1 + (← bits 5)
  let lengths := 4 + (← bits 4)
  if literals > 286 || distances > 30 then throw .corrupt
  let given ← (List.range lengths).mapM fun _ => bits 3
  let byOrder := lengthOrder.zip given
  let c := codeOf ((List.range 19).map fun i => (byOrder.lookup i).getD 0)
  if !(fits c 1 && slack c = 0) then throw .corrupt
  let ls ← codeLengths c (literals + distances) (literals + distances + 1) []
  if ls[256]?.getD 0 = 0 then throw .corrupt
  let l := codeOf (ls.take literals)
  let d := codeOf (ls.drop literals)
  if usable l && usable d then return (l, d) else throw .corrupt

def stored : Read Unit := do
  byteAligned
  let n ← bits 16
  let check ← bits 16
  if n + check ≠ 0xffff then throw .corrupt
  for _ in List.range n do
    emit (UInt8.ofNat (← bits 8))

/-- The blocks of a stream; each takes bits, so `fuel` of them suffice. -/
def blocks : Nat → Read Unit
  | 0 => throw .corrupt
  | fuel + 1 => do
    let last ← bit
    match ← bits 2 with
    | 0 => stored
    | 1 => block fixedLiterals fixedDistances fuel
    | 2 =>
      let (l, d) ← dynamicCodes
      block l d fuel
    | _ => throw .corrupt
    if last = 1 then return else blocks fuel

def adler (bs : Array UInt8) : Nat :=
  let (a, b) := bs.foldl (fun (p : Nat × Nat) x =>
    let a := (p.1 + x.toNat) % 65521
    (a, (p.2 + a) % 65521)) (1, 0)
  b * 65536 + a

def zlib : Read Unit := do
  let method ← bits 8
  let flags ← bits 8
  if method % 16 ≠ 8 || method / 16 > 7 then throw .corrupt
  if (method * 256 + flags) % 31 ≠ 0 || flags / 32 % 2 = 1 then throw .corrupt
  blocks ((← read).size * 8 + 1)
  byteAligned
  let mut sum := 0
  for _ in List.range 4 do
    sum := sum * 256 + (← bits 8)
  if sum ≠ adler (← get).out then throw .corrupt

/-- What a zlib stream holds, and how reading it came to its end. -/
def decompress (bs : Bytes) : Bytes × Stop :=
  let (r, s) := zlib bs.toArray ⟨0, #[]⟩
  (s.out.toList, match r with
    | .ok _ => .ended
    | .error e => e)

end Hotpatch.Inflate
