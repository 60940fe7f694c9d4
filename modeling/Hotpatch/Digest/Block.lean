import Hotpatch.Text.Utf8

/-!
What the digests share: padding a message to whole blocks, taking words out of it, and hexadecimal
text.
-/

namespace Hotpatch.Digest

/-- The `size` low bytes of a number, lowest first. -/
def littleBytes (size n : Nat) : Bytes :=
  (List.range size).map fun i => UInt8.ofNat (n >>> (8 * i))

def bigBytes (size n : Nat) : Bytes := (littleBytes size n).reverse

/-- The message, a set bit, and zeros up to the `tail` bytes that end its last block. -/
def padded (block : Nat) (message tail : Bytes) : Array UInt8 :=
  let used := (message.length + 1 + tail.length) % block
  let zeros := if used = 0 then 0 else block - used
  (message ++ 0x80 :: List.replicate zeros 0 ++ tail).toArray

def byteAt (a : Array UInt8) (i : Nat) : UInt8 := (a[i]?).getD 0

def bigWord32 (a : Array UInt8) (i : Nat) : UInt32 :=
  (byteAt a i).toUInt32 <<< 24 ||| (byteAt a (i + 1)).toUInt32 <<< 16 |||
    (byteAt a (i + 2)).toUInt32 <<< 8 ||| (byteAt a (i + 3)).toUInt32

def littleWord32 (a : Array UInt8) (i : Nat) : UInt32 :=
  (byteAt a (i + 3)).toUInt32 <<< 24 ||| (byteAt a (i + 2)).toUInt32 <<< 16 |||
    (byteAt a (i + 1)).toUInt32 <<< 8 ||| (byteAt a i).toUInt32

def bigWord64 (a : Array UInt8) (i : Nat) : UInt64 :=
  (bigWord32 a i).toUInt64 <<< 32 ||| (bigWord32 a (i + 4)).toUInt64

def littleWord64 (a : Array UInt8) (i : Nat) : UInt64 :=
  (littleWord32 a (i + 4)).toUInt64 <<< 32 ||| (littleWord32 a i).toUInt64

def rotateLeft32 (w : UInt32) (n : UInt32) : UInt32 := w <<< n ||| w >>> (32 - n)

def rotateLeft64 (w : UInt64) (n : UInt64) : UInt64 := w <<< n ||| w >>> (64 - n)

def rotateRight32 (w : UInt32) (n : UInt32) : UInt32 := w >>> n ||| w <<< (32 - n)

def rotateRight64 (w : UInt64) (n : UInt64) : UInt64 := w >>> n ||| w <<< (64 - n)

def hexText (bs : Bytes) : String := String.ofList (bs.flatMap fun b => Text.hex 2 b.toNat)

/-- Runs a compression over the blocks of a padded message. -/
def overBlocks {σ} (size : Nat) (message : Array UInt8) (compress : σ → Nat → σ) (start : σ) : σ :=
  (List.range (message.size / size)).foldl (fun s i => compress s (i * size)) start

end Hotpatch.Digest
