import Hotpatch.Elf.Section

/-! The symbols of an ELF image. Main definition: `Image.definedSymbols`. -/

namespace Hotpatch.Elf

structure Symbol where
  name : String
  value : Nat
  binding : Nat
  kind : Nat
  place : Nat
  deriving DecidableEq, Repr

/-- Whether others can link to a symbol: it is global or weak, an object, a function or of no type,
and it has a section and a name. -/
def Symbol.isDefined (s : Symbol) : Bool :=
  (s.binding = 1 || s.binding = 2) && s.kind ≤ 2 && s.place ≠ 0 && s.name ≠ ""

namespace Image

/-- Symbol `n` of a table; `names` has the texts. -/
def symbol (i : Image) (table names : SectionHeader) (n : Nat) : Except ImageFault Symbol := do
  let pos := table.offset + n * table.entrySize
  i.holds pos (if i.wide then 24 else 16)
  let f (wide narrow : Nat) := i.field (pos + if i.wide then wide else narrow)
  let name ← i.textAt (names.offset + f 0 0 4)
  let info := f 4 12 1
  return ⟨name, f 8 4 i.wordSize, info / 16, info % 16, f 6 14 2⟩

def symbolsFrom (i : Image) (table names : SectionHeader) (n : Nat) :
    Nat → Except ImageFault (List Symbol)
  | 0 => .ok []
  | k + 1 => do
    let s ← i.symbol table names n
    return s :: (← i.symbolsFrom table names (n + 1) k)

def symbolCount (table : SectionHeader) : Nat := table.size / table.entrySize

/-- The symbols of a section; one that is no symbol table has none. -/
def symbols (i : Image) (s : Section) : Except ImageFault (List Symbol) := do
  let h := s.header
  if !h.isSymbolTable then return []
  i.symbolsFrom h (← i.header h.link) 0 (symbolCount h)

def symbolsOf (i : Image) (n : Nat) : Nat → Except ImageFault (List Symbol)
  | 0 => .ok []
  | k + 1 => do
    let here ← i.symbols (← i.section n)
    return here ++ (← i.symbolsOf (n + 1) k)

/-- The names of all symbols that others can link to, in the order of the tables. -/
def definedSymbols (i : Image) : Except ImageFault (List String) := do
  return ((← i.symbolsOf 0 (← i.count)).filter Symbol.isDefined).map Symbol.name

end Image

end Hotpatch.Elf
