import Hotpatch.Dwarf.Form
import Hotpatch.Elf.Relocation

/-!
The debug sections of an image. They may be compressed all together under names of their own; where
an image has relocations for one, they are applied to what it holds.
-/

namespace Hotpatch.Dwarf

/-- A debug section: its bytes and its size. -/
structure Part where
  name : String
  bytes : Array UInt8
  size : Nat

structure Info where
  order : Elf.ByteOrder
  parts : List Part

namespace Info

/-- All debug sections that are read when debug information is. -/
def partNames : List String :=
  [".debug_info", ".debug_aranges", ".debug_abbrev", ".debug_str", ".debug_line", ".debug_frame",
    ".debug_loc", ".debug_ranges", ".debug_pubtypes", ".debug_pubnames", ".debug_addr",
    ".debug_str_offsets", ".debug_line_str", ".debug_loclists", ".debug_rnglists", ".debug_sup",
    ".gnu_debugaltlink", ".debug_types"]

/-- The name of a debug section that is compressed. -/
def packedName (name : String) : String := ".z" ++ (name.drop 1).toString

def part? (i : Info) (name : String) : Option Part := i.parts.find? (·.name = name)

def part (i : Info) (name : String) : Except ImageFault Part :=
  match i.part? name with
  | some p => .ok p
  | none => .error .unexpected

/-- The content of a section that begins with a mark and its size before it was compressed. -/
def unpacked (p : Part) : Except ImageFault Part := do
  let bs := p.bytes.toList
  if p.size ≤ 12 || bs.take 4 ≠ "ZLIB".toUTF8.toList then throw .unexpected
  if bs.length < 12 then throw .corrupt
  let (out, stop) := Inflate.decompress (bs.drop 12)
  if stop = .corrupt then throw .corrupt
  if out.length ≠ Elf.ByteOrder.big.value ((bs.take 12).drop 4) then throw .unexpected
  return ⟨p.name, out.toArray, out.length⟩

def everySecond {α} : List α → List α
  | a :: _ :: as => a :: everySecond as
  | as => as

/-- Whether every second byte of a debug section is only there to fill: some processors address
memory so. -/
def isPadded (i : Elf.Image) : Bool := i.machine = 118 && i.flags < 0x80000000

/-- The debug section of a name, as it stands in the image. -/
def readSection (i : Elf.Image) (ss : List Elf.Section) (name : String) :
    Except ImageFault (Option Part) := do
  match Elf.Image.sectionNamed? ss name with
  | none => return none
  | some s =>
    let bs ← i.content s
    let size := Elf.Image.size s
    match Elf.Image.relocationsOf? ss name, isPadded i with
    | some _, true => throw .unreadable
    | none, true => return some ⟨name, (everySecond bs).toArray, size / 2⟩
    | some r, false => return some ⟨name, ← i.relocate r bs.toArray, size⟩
    | none, false => return some ⟨name, bs.toArray, size⟩

/-- A debug section under the name it has when it is not compressed. -/
def readPart (i : Elf.Image) (ss : List Elf.Section) (packed : Bool) (name : String) :
    Except ImageFault (Option Part) := do
  if packed then
    match ← readSection i ss (packedName name) with
    | none => return none
    | some p => return some { (← unpacked p) with name }
  else readSection i ss name

/-- Whether an image has debug information of any kind. -/
def isIn (i : Elf.Image) : Except ImageFault Bool :=
  i.sections.map fun ss =>
    [".debug_info", ".zdebug_info", ".eh_frame"].any (Elf.Image.sectionNamed? ss · |>.isSome)

/-- The name of another file at the start of what names it, and `count` bytes behind. -/
def checkLink (bs : Bytes) (count : Nat) : Except ImageFault Unit := do
  if !bs.contains 0 then throw .openName
  if ((bs.dropWhile (· ≠ 0)).drop 1).length < count then throw .shortField

/-- Another file of debug information may be named: by a version, a mark that this file is not
itself the other one, and a name; or else by a name with a key behind. It is not looked for. -/
def checkSupplement (i : Info) : Except ImageFault Unit := do
  let named ← match i.part? ".debug_sup" with
    | none => pure false
    | some p => do
      let bs := p.bytes.toList
      if bs.length < 3 then throw .shortField
      checkLink (bs.drop 3) 0
      pure ((bs.drop 2).head? = some 0)
  if named then return
  if let some p := i.part? ".gnu_debugaltlink" then checkLink p.bytes.toList 20

def ofImage (i : Elf.Image) : Except ImageFault Info := do
  let ss ← i.sections
  let packed := (Elf.Image.sectionNamed? ss ".zdebug_info").isSome
  let parts ← partNames.mapM (readPart i ss packed)
  let _ ← readSection i ss ".eh_frame"
  let info : Info := ⟨i.order, parts.filterMap id⟩
  info.checkSupplement
  return info

end Info

end Hotpatch.Dwarf
