import Hotpatch.Failure

/-!
ELF images: the header, and the table of section headers it points to. Numbers are read in the
byte order and the width the first bytes tell. Everything is read from a place in the file that has
to be one a file can have and that has to hold as much as is read.
-/

namespace Hotpatch.Elf

inductive ByteOrder where
  | little | big
  deriving DecidableEq, Repr

namespace ByteOrder

def value (o : ByteOrder) (bs : Bytes) : Nat :=
  match o with
  | .little => bs.foldr (fun b n => n * 256 + b.toNat) 0
  | .big => bs.foldl (fun n b => n * 256 + b.toNat) 0

/-- The lowest `size` bytes of a number, the lowest first. -/
def littleBytes (n : Nat) : Nat → Bytes
  | 0 => []
  | size + 1 => UInt8.ofNat (n % 256) :: littleBytes (n / 256) size

/-- A number as `size` bytes; what doesn't fit is cut off. -/
def bytes (o : ByteOrder) (n size : Nat) : Bytes :=
  match o with
  | .little => littleBytes n size
  | .big => (littleBytes n size).reverse

end ByteOrder

/-- The bytes from `pos` on, `size` of them or as many as there are. -/
def slice (bytes : Array UInt8) (pos size : Nat) : Bytes := (bytes.extract pos (pos + size)).toList

def terminatedWithin (bytes : Array UInt8) (pos : Nat) : Nat → Option Bytes
  | 0 => none
  | n + 1 => do
    let b ← bytes[pos]?
    if b = 0 then return [] else return b :: (← terminatedWithin bytes (pos + 1) n)

/-- The bytes from `pos` on up to the next zero, if there is one. -/
def terminated? (bytes : Array UInt8) (pos : Nat) : Option Bytes :=
  terminatedWithin bytes pos (bytes.size - pos)

/-- The first number that doesn't fit into 63 bits. -/
def tooWide : Nat := 0x8000000000000000

/-- The last position a file can have: one block of 4096 bytes less than can be counted with 44
bits. -/
def lastPosition : Nat := 0xffffffff000

/-- A position in a file; some are none. -/
def seek (pos : Nat) : Except ImageFault Unit :=
  if tooWide ≤ pos then .error (.invalid "cannot fit 'int' into an offset-sized integer")
  else if lastPosition < pos then .error .outOfReach
  else .ok ()

structure SectionHeader where
  name : Nat
  kind : Nat
  flags : Nat
  offset : Nat
  size : Nat
  link : Nat
  entrySize : Nat
  deriving DecidableEq, Repr

structure Image where
  bytes : Array UInt8
  order : ByteOrder
  /-- Whether addresses and sizes take eight bytes. -/
  wide : Bool
  machine : Nat
  flags : Nat
  tableOffset : Nat
  tableEntrySize : Nat
  /-- The number of sections the header gives; zero where it stands in the first section. -/
  tableCount : Nat
  /-- The section that holds the names of the sections. -/
  names : Option SectionHeader

namespace Image

/-- Makes sure that `size` bytes can be read at `pos`. -/
def holds (i : Image) (pos size : Nat) : Except ImageFault Unit := do
  seek pos
  if i.bytes.size < pos + size then throw .unreadable

/-- A number of `size` bytes at `pos`. -/
def field (i : Image) (pos size : Nat) : Nat := i.order.value (slice i.bytes pos size)

/-- The size of an address. -/
def wordSize (i : Image) : Nat := if i.wide then 8 else 4

def headerSize (i : Image) : Nat := if i.wide then 64 else 40

/-- The section header that stands at a place. -/
def headerAt (i : Image) (pos : Nat) : SectionHeader :=
  let f (wide narrow : Nat) := i.field (pos + if i.wide then wide else narrow)
  ⟨f 0 0 4, f 4 4 4, f 8 8 i.wordSize, f 24 16 i.wordSize, f 32 20 i.wordSize, f 40 24 4,
    f 56 36 i.wordSize⟩

/-- The header of section `n`. -/
def header (i : Image) (n : Nat) : Except ImageFault SectionHeader := do
  let pos := i.tableOffset + n * i.tableEntrySize
  if i.tableEntrySize < i.headerSize || i.bytes.size < pos + i.headerSize then throw .unreadable
  return i.headerAt pos

/-- The number of sections; the first header may hold what does not fit into the file's header. -/
def count (i : Image) : Except ImageFault Nat :=
  if i.tableOffset = 0 then .ok 0
  else if i.tableCount = 0 then (i.header 0).map SectionHeader.size
  else .ok i.tableCount

/-- The header of the section of names, which is the one of an index or the one the first header
tells. -/
def namesHeader (i : Image) (index : Nat) : Except ImageFault SectionHeader := do
  if i.tableOffset = 0 then throw .unreadable
  if index = 0xffff then i.header (← i.header 0).link else i.header index

/-- Reads the header of an image and finds its section names. -/
def ofBytes (bytes : Array UInt8) : Except ImageFault Image := do
  if slice bytes 0 4 ≠ [0x7f, 0x45, 0x4c, 0x46] then throw .malformed
  let wide ← match slice bytes 4 1 with
    | [1] => pure false
    | [2] => pure true
    | _ => throw .malformed
  let order ← match slice bytes 5 1 with
    | [1] => pure ByteOrder.little
    | [2] => pure ByteOrder.big
    | _ => throw .malformed
  if bytes.size < (if wide then 64 else 52) then throw .unreadable
  let f (pos size : Nat) := order.value (slice bytes pos size)
  let tail := if wide then 58 else 46
  let i : Image := ⟨bytes, order, wide, f 18 2, if wide then f 48 4 else f 36 4,
    if wide then f 40 8 else f 32 4, f tail 2, f (tail + 2) 2, none⟩
  return { i with names := (i.namesHeader (f (tail + 4) 2)).toOption }

/-- The text that stands at a place up to the next zero; empty if there is none. -/
def textAt (i : Image) (pos : Nat) : Except ImageFault String := do
  seek pos
  return Text.decodeLossy ((terminated? i.bytes pos).getD [])

end Image

/-- Whether a file is an ELF object that is meant for linking: its type is 1. -/
def isRelocatable (bytes : Array UInt8) : Bool :=
  match slice bytes 0 4, slice bytes 5 1 with
  | [0x7f, 0x45, 0x4c, 0x46], [o] =>
    (o = 1 && slice bytes 16 2 = [1, 0]) || (o = 2 && slice bytes 16 2 = [0, 1])
  | _, _ => false

end Hotpatch.Elf
