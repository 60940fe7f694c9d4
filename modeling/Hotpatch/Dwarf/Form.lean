import Hotpatch.Elf.Image

/-!
The data of DWARF debug information: numbers of fixed size, LEB128 numbers, texts, and the forms in
which the attributes of an entry are written.
-/

namespace Hotpatch.Dwarf

/-- The bytes of a section and their order. -/
structure Source where
  bytes : Array UInt8
  order : Elf.ByteOrder

/-- Reads from a section at a position that moves on. -/
abbrev Read := ReaderT Source (StateT Nat (Except ImageFault))

def Read.at {α} (r : Read α) (s : Source) (pos : Nat) : Except ImageFault (α × Nat) := r s pos

def bytes (count : Nat) : Read Bytes := do
  let s ← read
  let pos ← get
  if s.bytes.size < pos + count then throw .unreadable
  set (pos + count)
  return Elf.slice s.bytes pos count

def fixed (size : Nat) : Read Nat := do return (← read).order.value (← bytes size)

/-- The value of a LEB128 number and the bits it has; a number has no more bytes than its
section. -/
def lebWithin : Nat → Read (Nat × Nat)
  | 0 => throw .unreadable
  | n + 1 => do
    let b ← fixed 1
    if b < 128 then return (b, 7)
    let (high, width) ← lebWithin n
    return (b - 128 + 128 * high, width + 7)

def unsignedLeb : Read Nat := do
  return (← lebWithin ((← read).bytes.size + 1)).1

/-- A number below zero has its highest bit set. -/
def signedLeb : Read Int := do
  let (n, width) ← lebWithin ((← read).bytes.size + 1)
  return if n < 1 <<< (width - 1) then n else n - (1 <<< width : Nat)

def terminated : Read Bytes := do
  let s ← read
  let pos ← get
  match Elf.terminated? s.bytes pos with
  | none => throw .unreadable
  | some t =>
    set (pos + t.length + 1)
    return t

/-- What stands in an entry for an attribute. -/
inductive Value where
  | number (n : Int)
  | flag (b : Bool)
  /-- A text; none if it never ends. -/
  | text (t : Option Bytes)
  | block (bs : Bytes)
  deriving DecidableEq, Repr

/-- The sizes that a unit gives: of its offsets, of its addresses, and its version. -/
structure Sizes where
  offset : Nat
  address : Nat
  version : Nat
  deriving DecidableEq, Repr

/-- How the value of a form is written. -/
inductive Shape where
  | fixed (size : Nat)
  | unsigned
  | signed
  | text
  /-- A length of so many bytes and as many bytes. -/
  | block (lengthSize : Nat)
  /-- A length as an unsigned LEB128 number and as many bytes. -/
  | measured
  /-- So many bytes. -/
  | bytes (count : Nat)
  | flag
  /-- A flag that is set by being there. -/
  | present
  deriving DecidableEq, Repr

def Shape.read : Shape → Read Value
  | .fixed n => return .number (← Dwarf.fixed n)
  | .unsigned => return .number (← unsignedLeb)
  | .signed => return .number (← signedLeb)
  | .text => return .text (some (← terminated))
  | .block n => do return .block (← Dwarf.bytes (← Dwarf.fixed n))
  | .measured => do return .block (← Dwarf.bytes (← unsignedLeb))
  | .bytes n => return .block (← Dwarf.bytes n)
  | .flag => return .flag ((← Dwarf.fixed 1) ≠ 0)
  | .present => return .flag true

namespace Form

def indirect : Nat := 0x16
def constant : Nat := 0x21

/-- The shapes of all forms whose value stands in the entry. -/
def shape? (s : Sizes) : Nat → Option Shape
  | 0x01 => some (.fixed s.address)
  | 0x02 => some (.fixed 4)
  | 0x03 => some (.block 2)
  | 0x04 => some (.block 4)
  | 0x05 => some (.fixed 2)
  | 0x06 => some (.fixed 4)
  | 0x07 => some (.fixed 8)
  | 0x08 => some .text
  | 0x09 => some .measured
  | 0x0a => some (.block 1)
  | 0x0b => some (.fixed 1)
  | 0x0c => some .flag
  | 0x0d => some .signed
  | 0x0e => some (.fixed s.offset)
  | 0x0f => some .unsigned
  | 0x10 => some (.fixed (if s.version = 2 then s.address else s.offset))
  | 0x11 => some (.fixed 1)
  | 0x12 => some (.fixed 2)
  | 0x13 => some (.fixed 4)
  | 0x14 => some (.fixed 8)
  | 0x15 => some .unsigned
  | 0x16 => some .unsigned
  | 0x17 => some (.fixed s.offset)
  | 0x18 => some .measured
  | 0x19 => some .present
  | 0x1a => some .unsigned
  | 0x1b => some .unsigned
  | 0x1c => some (.fixed 4)
  | 0x1d => some (.fixed s.offset)
  | 0x1e => some (.bytes 16)
  | 0x1f => some (.fixed s.offset)
  | 0x20 => some (.fixed 8)
  | 0x22 => some .unsigned
  | 0x23 => some .unsigned
  | 0x24 => some (.fixed 8)
  | 0x25 => some (.fixed 1)
  | 0x26 => some (.fixed 2)
  | 0x27 => some (.fixed 3)
  | 0x28 => some (.fixed 8)
  | 0x29 => some (.fixed 1)
  | 0x2a => some (.fixed 2)
  | 0x2b => some (.fixed 3)
  | 0x2c => some (.fixed 4)
  | 0x1f20 => some (.fixed s.offset)
  | 0x1f21 => some (.fixed s.offset)
  | _ => none

/-- Whether a form has a name at all. -/
def isKnown (f : Nat) : Bool := f ≤ 0x2c || [0x1f01, 0x1f02, 0x1f20, 0x1f21].contains f

def isTextIndex (f : Nat) : Bool := f = 0x1a || (0x25 ≤ f && f ≤ 0x28)

def isAddressIndex (f : Nat) : Bool := f = 0x1b || (0x29 ≤ f && f ≤ 0x2c)

def isLocationIndex (f : Nat) : Bool := f = 0x22

def isRangeIndex (f : Nat) : Bool := f = 0x23

/-- Whether a value is an index into a table whose place the first entry of the unit tells. -/
def isIndex (f : Nat) : Bool :=
  isTextIndex f || isAddressIndex f || isLocationIndex f || isRangeIndex f

/-- The form and the value that stand behind an indirect one. Every step takes a byte. -/
def readIndirect (s : Sizes) : Nat → Nat → Read (Nat × Value)
  | 0, _ => throw .unreadable
  | n + 1, f =>
    match shape? s f with
    | none =>
      throw (if f = constant then .unexpected else if isKnown f then .missing else .unsupported)
    | some shape => do
      let v ← shape.read
      match v with
      | .number k => if f = indirect then readIndirect s n k.toNat else return (f, v)
      | _ => return (f, v)

/-- The form and the value of an attribute. -/
def readValue (s : Sizes) (f : Nat) (given : Int) : Read (Nat × Value) := do
  if f = constant then return (f, .number given)
  if f = indirect then
    readIndirect s ((← read).bytes.size + 1) (← unsignedLeb)
  else match shape? s f with
    | none => throw .missing
    | some shape => return (f, ← shape.read)

end Form

end Hotpatch.Dwarf
