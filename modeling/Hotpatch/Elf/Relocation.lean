import Hotpatch.Elf.Symbol

/-!
Relocations of debug information. A section may come with a second one that tells where in it the
values of symbols are missing. How a value is put together hangs on the machine and on the type of
the relocation. Main definition: `Image.relocate`.
-/

namespace Hotpatch.Elf

/-- One relocation: its place in the section, the symbol, the type, further types of the same place,
and the addend, if it is given. -/
structure Relocation where
  place : Nat
  symbol : Nat
  kind : Nat
  /-- Whether more types or a second symbol are given, where there is room for them. -/
  more : Option Bool
  addend : Option Int
  deriving DecidableEq, Repr

/-- What the value at a place is made of: the symbol, the value there, the addend, the place. -/
structure Operands where
  symbol : Int
  value : Int
  addend : Int
  place : Int
  deriving DecidableEq, Repr

/-- How a value is put together: the bytes it has, whether an addend is needed, and the sum. -/
structure Recipe where
  size : Nat
  needsAddend : Bool
  sum : Operands → Int

namespace Recipe

def keep (size : Nat) : Recipe := ⟨size, false, fun o => o.value⟩

/-- Symbol and addend. -/
def direct (size : Nat) : Recipe := ⟨size, true, fun o => o.symbol + o.addend⟩

/-- Symbol and addend, from the place on. -/
def distance (size : Nat) : Recipe := ⟨size, true, fun o => o.symbol + o.addend - o.place⟩

/-- The value there is the addend. -/
def inPlace (size : Nat) : Recipe := ⟨size, false, fun o => o.symbol + o.value⟩

def inPlaceDistance (size : Nat) : Recipe := ⟨size, false, fun o => o.symbol + o.value - o.place⟩

/-- Symbol and addend are added to the value there. -/
def plus (size : Nat) : Recipe := ⟨size, true, fun o => o.symbol + o.value + o.addend⟩

/-- Symbol and addend are taken from the value there. -/
def minus (size : Nat) : Recipe := ⟨size, true, fun o => o.value - o.symbol - o.addend⟩

/-- A call counted in words. -/
def call : Recipe := ⟨4, false, fun o => o.symbol.fdiv 4 + o.value - o.place.fdiv 4⟩

/-- A jump counted in double words from the next one on. -/
def jump : Recipe := ⟨8, false, fun o => o.symbol.fdiv 8 - 1⟩

end Recipe

/-- The ways a machine knows, by the type of the relocation. -/
structure Recipes where
  /-- Whether relocations with an addend are known; none if both are. -/
  addends : Option Bool
  ways : List (Nat × Recipe)
  /-- The ways for relocations without an addend where they differ. -/
  plainWays : Option (List (Nat × Recipe))

namespace Recipes
open Recipe

def ofMachine? : Nat → Option Recipes
  | 3 => some ⟨some false, [(0, keep 4), (1, inPlace 4), (2, inPlaceDistance 4)], none⟩
  | 8 => some ⟨none, [(0, keep 4), (2, plus 4), (18, plus 8)], some [(0, keep 4), (2, inPlace 4)]⟩
  | 21 => some ⟨none, [(1, direct 4), (26, distance 4), (38, direct 8)], none⟩
  | 22 => some ⟨none, [(4, direct 4), (5, distance 4), (22, direct 8)], none⟩
  | 40 => some ⟨some false, [(2, inPlace 4), (28, call)], none⟩
  | 62 => some ⟨some true, [(0, keep 8), (1, direct 8), (2, distance 4), (10, direct 4),
      (11, direct 4)], none⟩
  | 183 => some ⟨none, [(257, direct 8), (258, direct 4), (261, distance 4)], none⟩
  | 247 => some ⟨none, [(0, keep 8), (1, keep 8), (2, keep 8), (3, keep 4), (4, keep 4),
      (10, jump)], none⟩
  | 258 => some ⟨some true, [(0, keep 4), (1, direct 4), (2, direct 8), (47, plus 1),
      (48, plus 2), (50, plus 4), (51, plus 8), (52, minus 1), (53, minus 2), (55, minus 4),
      (56, minus 8), (99, distance 4), (109, distance 8)], none⟩
  | _ => none

def find? (r : Recipes) (addend : Bool) (kind : Nat) : Option Recipe :=
  if r.addends.any (· ≠ addend) then none
  else (if addend then r.ways else r.plainWays.getD r.ways).lookup kind

end Recipes

/-- A number of `size` bytes with its highest bit as the sign. -/
def signed (n size : Nat) : Int := (n : Int).bmod (1 <<< (8 * size))

namespace Image

/-- Entry `n` of a section of relocations. -/
def relocation (i : Image) (s : SectionHeader) (n : Nat) : Except ImageFault Relocation := do
  let words := if s.isRela then 3 else 2
  let w := i.wordSize
  let pos := s.offset + n * (words * w)
  i.holds pos (words * w)
  let place := i.field pos w
  let addend := if s.isRela then some (signed (i.field (pos + 2 * w) w) w) else none
  if i.wide && i.machine = 8 then
    let types := (slice i.bytes (pos + 12) 4).map UInt8.toNat
    return ⟨place, i.field (pos + 8) 4, types.getLastD 0, some (types.dropLast.any (· ≠ 0)), addend⟩
  else
    let info := i.field (pos + w) w
    let cut := if i.wide then 0x100000000 else 0x100
    return ⟨place, info / cut, info % cut, none, addend⟩

/-- The way to put together the value of a relocation. -/
def recipe (i : Image) (s : SectionHeader) (r : Relocation) : Except ImageFault Recipe := do
  if i.machine = 8 && s.isRela && r.kind = 18 then
    match r.more with
    | none => throw .missing
    | some true => throw .relocation
    | some false => pure ()
  match Recipes.ofMachine? i.machine >>= (·.find? s.isRela r.kind) with
  | some way => return way
  | none => throw .relocation

/-- Writes over what stands at a place. -/
def overwrite (target : Array UInt8) (pos : Nat) : Bytes → Array UInt8
  | [] => target
  | b :: bs => overwrite (target.setIfInBounds pos b) (pos + 1) bs

/-- Puts the value of one relocation in its place. -/
def relocateOne (i : Image) (relocations symbols names : SectionHeader) (target : Array UInt8)
    (n : Nat) : Except ImageFault (Array UInt8) := do
  let r ← i.relocation relocations n
  if symbolCount symbols ≤ r.symbol then throw .relocation
  let s ← i.symbol symbols names r.symbol
  let way ← i.recipe relocations r
  if tooWide ≤ r.place then throw .overflow
  if target.size < r.place + way.size then throw .unreadable
  if way.needsAddend && r.addend.isNone then throw .missing
  let value := i.order.value (slice target r.place way.size)
  let sum := way.sum ⟨s.value, value, r.addend.getD 0, r.place⟩
  let kept := (sum % (1 <<< (8 * way.size) : Nat)).toNat
  return overwrite target r.place (i.order.bytes kept way.size)

def relocateFrom (i : Image) (relocations symbols names : SectionHeader) (n : Nat) :
    Nat → Array UInt8 → Except ImageFault (Array UInt8)
  | 0, target => .ok target
  | k + 1, target => do
    let target ← i.relocateOne relocations symbols names target n
    i.relocateFrom relocations symbols names (n + 1) k target

/-- The first section of relocations for the section of a name. -/
def relocationsOf? (ss : List Section) (name : String) : Option Section :=
  ss.find? fun s => (s.header.isRel || s.header.isRela) &&
    (s.name = ".rel" ++ name || s.name = ".rela" ++ name)

/-- Puts the values of all relocations of a section in their places. -/
def relocate (i : Image) (relocations : Section) (target : Array UInt8) :
    Except ImageFault (Array UInt8) := do
  let h := relocations.header
  let symbols ← i.section h.link
  if !symbols.header.isSymbolTable then throw .unexpected
  let names ← i.header symbols.header.link
  i.relocateFrom h symbols.header names 0 (h.size / h.entrySize) target

end Image

end Hotpatch.Elf
