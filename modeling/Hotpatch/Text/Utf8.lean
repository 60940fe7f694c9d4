import Hotpatch.Text.Quoted

/-!
Bytes and text. `decode` reads UTF-8 strictly and says where and why it fails; `decodeLossy` puts
the replacement character for every maximal sequence that can't be read.
-/

namespace Hotpatch

abbrev Bytes := List UInt8

namespace Text

def encode (s : String) : Bytes := s.toUTF8.toList

/-- Why bytes are no text. -/
inductive Flaw where
  | start | continuation | truncated
  deriving DecidableEq, Repr

def Flaw.reason : Flaw → String
  | .start => "invalid start byte"
  | .continuation => "invalid continuation byte"
  | .truncated => "unexpected end of data"

/-- What stands at the front of a byte sequence: a character of so many bytes, or so many bytes
that can't be read. -/
inductive Front where
  | char (c : Char) (size : Nat)
  | bad (why : Flaw) (size : Nat)

def isTail (b : UInt8) : Bool := 0x80 ≤ b && b < 0xc0

def scalar (lead : Nat) (tails : List UInt8) : Char :=
  Char.ofNat (tails.foldl (fun n b => n * 64 + (b.toNat - 0x80)) lead)

/-- The continuation bytes a first byte asks for, the least and the greatest first one, and the
bits it brings itself. -/
def demand (b : UInt8) : Option (Nat × UInt8 × UInt8 × Nat) :=
  if b < 0xc2 then none
  else if b < 0xe0 then some (1, 0x80, 0xbf, b.toNat - 0xc0)
  else if b = 0xe0 then some (2, 0xa0, 0xbf, 0)
  else if b = 0xed then some (2, 0x80, 0x9f, 13)
  else if b < 0xf0 then some (2, 0x80, 0xbf, b.toNat - 0xe0)
  else if b = 0xf0 then some (3, 0x90, 0xbf, 0)
  else if b < 0xf4 then some (3, 0x80, 0xbf, b.toNat - 0xf0)
  else if b = 0xf4 then some (3, 0x80, 0x8f, 4)
  else none

def front (b : UInt8) (rest : Bytes) : Front :=
  if b < 0x80 then .char (Char.ofNat b.toNat) 1
  else match demand b with
    | none => .bad .start 1
    | some (want, lo, hi, lead) =>
      match rest with
      | [] => .bad .truncated 1
      | t :: ts =>
        if t < lo || hi < t then .bad .continuation 1
        else
          let good := (ts.take (want - 1)).takeWhile isTail
          if good.length = want - 1 then .char (scalar lead (t :: good)) (want + 1)
          else if (ts.take (want - 1)).length = good.length then .bad .truncated (good.length + 2)
          else .bad .continuation (good.length + 2)

structure Undecodable where
  first : UInt8
  start : Nat
  size : Nat
  why : Flaw
  deriving DecidableEq, Repr

def Undecodable.message (e : Undecodable) : String :=
  let place :=
    if e.size = 1 then
      "byte 0x" ++ String.ofList (hex 2 e.first.toNat) ++ " in position " ++ toString e.start
    else "bytes in position " ++ toString e.start ++ "-" ++ toString (e.start + e.size - 1)
  "'utf-8' codec can't decode " ++ place ++ ": " ++ e.why.reason

/-- Reads from position `pos`; `skip` bytes belong to a character already read. -/
def decodeFrom (pos skip : Nat) : Bytes → Except Undecodable (List Char)
  | [] => .ok []
  | b :: bs =>
    match skip with
    | k + 1 => decodeFrom (pos + 1) k bs
    | 0 => match front b bs with
      | .bad why n => .error ⟨b, pos, n, why⟩
      | .char c n => (decodeFrom (pos + 1) (n - 1) bs).map (c :: ·)

def decode (bs : Bytes) : Except Undecodable String :=
  (decodeFrom 0 0 bs).map String.ofList

def decodeLossyFrom (skip : Nat) : Bytes → List Char
  | [] => []
  | b :: bs =>
    match skip with
    | k + 1 => decodeLossyFrom k bs
    | 0 => match front b bs with
      | .bad _ n => '\uFFFD' :: decodeLossyFrom (n - 1) bs
      | .char c n => c :: decodeLossyFrom (n - 1) bs

def decodeLossy (bs : Bytes) : String := String.ofList (decodeLossyFrom 0 bs)

end Text

end Hotpatch
