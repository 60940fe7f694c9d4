import Hotpatch.Elf.Image
import Hotpatch.Inflate

/-!
The sections of an ELF image. A section is read with the one it links to; what it holds may be
compressed. Each kind has rules of its own, which are checked when the section is read.
-/

namespace Hotpatch.Elf

/-- How the content of a section is compressed: the method, the size it has when decompressed, and
the bytes this information takes at its front. -/
structure Compression where
  method : Nat
  size : Nat
  header : Nat
  deriving DecidableEq, Repr

structure Section where
  name : String
  header : SectionHeader
  compression : Option Compression
  deriving DecidableEq, Repr

namespace SectionHeader

def isSymbolTable (h : SectionHeader) : Bool := [2, 11, 0x6ffffff3].contains h.kind

def isDynamic (h : SectionHeader) : Bool := h.kind = 6

/-- Whether a section holds relocations without addends. -/
def isRel (h : SectionHeader) : Bool := h.kind = 9

/-- Whether a section holds relocations with addends. -/
def isRela (h : SectionHeader) : Bool := h.kind = 4

/-- Whether a section has no place in the file. -/
def isBlank (h : SectionHeader) : Bool := h.kind = 8

def isCompressed (h : SectionHeader) : Bool := h.flags / 0x800 % 2 = 1

/-- The kinds a section may link to, if it is read together with the one it links to: texts for
symbols and versions, symbols for hash tables and what goes along with symbols. -/
def linkKinds (h : SectionHeader) : Option (List Nat) :=
  if h.isSymbolTable || [0x6ffffffd, 0x6ffffffe].contains h.kind then some [3]
  else if [5, 0x6ffffff6, 0x6ffffffc, 0x6fffffff].contains h.kind then some [2, 11]
  else if h.isDynamic then some [3, 8, 0]
  else none

/-- The size that the entries of a table have to have, where it is given by its kind. -/
def requiredEntrySize (wide : Bool) (h : SectionHeader) : Option Nat :=
  if h.isRela then some (if wide then 24 else 12)
  else if h.isRel then some (if wide then 16 else 8)
  else if h.kind = 19 then some (if wide then 8 else 4)
  else none

/-- Whether the entries of a table have a size that can be. -/
def entriesFit (wide : Bool) (h : SectionHeader) : Bool :=
  if h.isSymbolTable then 0 < h.entrySize && h.size % h.entrySize = 0
  else (h.requiredEntrySize wide).all (h.entrySize = ·)

end SectionHeader

namespace Image

/-- The name of a section as the section of names has it. -/
def nameOf (i : Image) (h : SectionHeader) : Except ImageFault String :=
  match i.names with
  | some names => i.textAt (names.offset + h.name)
  | none => .error .unreadable

def compression (i : Image) (h : SectionHeader) : Except ImageFault (Option Compression) := do
  if !h.isCompressed then return none
  let size := if i.wide then 24 else 12
  i.holds h.offset size
  return some ⟨i.field h.offset 4, i.field (h.offset + i.wordSize) i.wordSize, size⟩

/-- Hash tables are read as a whole: their counts tell how long they are. -/
def checkHash (i : Image) (h : SectionHeader) : Except ImageFault Unit := do
  let word (n : Nat) := i.field (h.offset + 4 * n) 4
  if h.kind = 5 then
    i.holds h.offset 8
    i.holds h.offset (8 + 4 * (word 0 + word 1))
  if h.kind = 0x6ffffff6 then
    i.holds h.offset 16
    i.holds h.offset (16 + i.wordSize * word 2 + 4 * word 0)

/-- Build attributes of some machines begin with the letter A. -/
def checkAttributes (i : Image) (h : SectionHeader) : Except ImageFault Unit := do
  if h.kind = 0x70000003 && [40, 243].contains i.machine then
    i.holds h.offset 1
    if i.field h.offset 1 ≠ 0x41 then throw .malformed

/-- Section `n`, read along at most `depth` links. -/
def sectionWithin (i : Image) : Nat → Nat → Except ImageFault Section
  | 0, _ => .error .unreadable
  | depth + 1, n => do
    let h ← i.header n
    let name ← i.nameOf h
    let follow : Except ImageFault Unit :=
      match h.linkKinds with
      | none => .ok ()
      | some kinds => do
        if (← i.header h.link).kind ∉ kinds then throw .unreadable
        let _ ← i.sectionWithin depth h.link
    if !h.isDynamic then follow
    let c ← i.compression h
    if h.isDynamic then follow
    i.checkHash h
    if !h.entriesFit i.wide then throw .malformed
    i.checkAttributes h
    return ⟨name, h, c⟩

/-- The longest way is from a hash table over symbols to texts, which link to nothing. -/
def deepest : Nat := 3

def «section» (i : Image) (n : Nat) : Except ImageFault Section := i.sectionWithin deepest n

def sectionsFrom (i : Image) (n : Nat) : Nat → Except ImageFault (List Section)
  | 0 => .ok []
  | k + 1 => do
    let s ← i.section n
    return s :: (← i.sectionsFrom (n + 1) k)

def sections (i : Image) : Except ImageFault (List Section) := do i.sectionsFrom 0 (← i.count)

/-- The last section of a name. -/
def sectionNamed? (ss : List Section) (name : String) : Option Section :=
  ss.reverse.find? (·.name = name)

/-- The size of a section's content, decompressed. -/
def size (s : Section) : Nat :=
  match s.compression with
  | some c => c.size
  | none => s.header.size

/-- How many bytes can be read at once at most; they take some more of their own. -/
def longest : Nat := tooWide - 34

/-- How much can be held in memory at most. -/
def memory : Nat := 0x10000000000

/-- How many zeros can be written at most. -/
def blank : Nat := 0x400000000

/-- At most `size` bytes from a place in the file. -/
def readAt (i : Image) (pos size : Nat) : Except ImageFault Bytes := do
  seek pos
  if longest < size then throw .overflow
  if memory ≤ size then throw .exhausted
  return slice i.bytes pos size

def zeros (size : Nat) : Except ImageFault Bytes :=
  if tooWide ≤ size then .error .overflow
  else if blank ≤ size then .error .exhausted
  else .ok (List.replicate size 0)

/-- The methods of compression that have a name but no meaning. -/
def isNamedMethod (m : Nat) : Bool := [0x60000000, 0x6fffffff, 0x70000000, 0x7fffffff].contains m

/-- What follows a compression header: all of the file if the section ends one byte before, which
says that its end is not known. -/
def packed (i : Image) (h : SectionHeader) (c : Compression) : Except ImageFault Bytes := do
  let pos := h.offset + c.header
  seek pos
  if h.size + 1 < c.header then throw (.invalid "read length must be non-negative or -1")
  if h.size + 1 = c.header then return slice i.bytes pos i.bytes.size
  i.readAt pos (h.size - c.header)

def inflated (i : Image) (h : SectionHeader) (c : Compression) : Except ImageFault Bytes := do
  if isNamedMethod c.method then
    throw (.invalid "Unknown format code 'x' for object of type 'str'")
  if c.method ≠ 1 then throw .compression
  let bs ← i.packed h c
  if tooWide ≤ c.size then throw .overflow
  let (out, stop) := Inflate.decompress bs
  if 0 < c.size && c.size < out.length then return out.take c.size
  if stop = .corrupt then throw .corrupt
  if out.length = c.size then return out else throw .compression

/-- The content of a section; one without a place in the file is all zeros. -/
def content (i : Image) (s : Section) : Except ImageFault Bytes :=
  if s.header.isBlank then zeros (size s)
  else match s.compression with
    | some c => i.inflated s.header c
    | none => i.readAt s.header.offset s.header.size

end Image

end Hotpatch.Elf
