import Hotpatch.Dwarf.Info

/-!
The entries of debug information. A unit names a table of declarations; each entry begins with the
code of one, which tells its tag and the forms of its attributes. The code zero only ends a list of
children: for what is asked here, how entries are nested does not matter, so they are read one
behind the other.
-/

namespace Hotpatch.Dwarf

structure AttributeForm where
  name : Nat
  form : Nat
  /-- The value of an attribute that stands in the declaration. -/
  given : Int
  deriving DecidableEq, Repr

structure Declaration where
  code : Nat
  tag : Nat
  attributes : List AttributeForm
  deriving DecidableEq, Repr

structure Attribute where
  name : Nat
  form : Nat
  value : Value
  deriving DecidableEq, Repr

/-- An entry with its attributes, each name once. -/
structure Entry where
  tag : Nat
  attributes : List Attribute
  deriving DecidableEq, Repr

/-- Puts an attribute in the place of the one that has its name, or else behind all. -/
def Attribute.put (a : Attribute) : List Attribute → List Attribute
  | [] => [a]
  | b :: bs => if b.name = a.name then a :: bs else b :: a.put bs

def Entry.attribute? (e : Entry) (name : Nat) : Option Attribute :=
  e.attributes.find? (·.name = name)

namespace Declaration

def readAttributes : Nat → Read (List AttributeForm)
  | 0 => throw .unreadable
  | n + 1 => do
    let name ← unsignedLeb
    let form ← unsignedLeb
    let given ← if form = Form.constant then signedLeb else pure 0
    if name = 0 && form = 0 then return []
    return ⟨name, form, given⟩ :: (← readAttributes n)

/-- Declarations up to the code zero. All of them together have no more parts than bytes. -/
def readTable (size : Nat) : Nat → Read (List Declaration)
  | 0 => throw .unreadable
  | n + 1 => do
    let code ← unsignedLeb
    if code = 0 then return []
    let tag ← unsignedLeb
    let children ← fixed 1
    if 1 < children then throw .unreadable
    let attributes ← readAttributes size
    return ⟨code, tag, attributes⟩ :: (← readTable size n)

end Declaration

structure Unit where
  offset : Nat
  /-- Where the next unit begins. -/
  next : Nat
  sizes : Sizes
  /-- Where the declarations begin. -/
  table : Nat
  /-- Where the first entry begins. -/
  first : Nat
  deriving DecidableEq, Repr

namespace Unit

/-- The length at the start of a unit and the size of the offsets in it. -/
def readLength : Read (Nat × Nat) := do
  let n ← fixed 4
  if n = 0xffffffff then return (← fixed 8, 8)
  if 0xffffff00 ≤ n then throw .unreadable
  return (n, 4)

/-- The size of an address and the place of the declarations. -/
def readPlaces (version offsetSize : Nat) : Read (Nat × Nat) := do
  if 5 ≤ version then
    let kind ← fixed 1
    if kind = 0 || 6 < kind then throw .unreadable
    let address ← fixed 1
    let table ← fixed offsetSize
    if kind = 4 || kind = 5 then let _ ← fixed 8
    if kind = 2 || kind = 6 then
      let _ ← fixed 8
      let _ ← fixed offsetSize
    return (address, table)
  else
    let table ← fixed offsetSize
    return (← fixed 1, table)

def read : Read Unit := do
  let offset ← get
  let (length, offsetSize) ← readLength
  let version ← fixed 2
  let (address, table) ← readPlaces version offsetSize
  if address ∉ [4, 8] then throw .unexpected
  if version < 2 || 5 < version then throw .unsupported
  let head := if offsetSize = 8 then 12 else 4
  return ⟨offset, offset + head + length, ⟨offsetSize, address, version⟩, table, ← get⟩

end Unit

namespace Info

/-- The text that begins at an offset of a part; none if it never ends. -/
def textAt (i : Info) (name : String) (offset : Nat) : Except ImageFault Value := do
  let p ← i.part name
  if Elf.tooWide ≤ offset then throw .overflow
  return .text (Elf.terminated? p.bytes offset)

/-- The declarations of a unit. -/
def declarations (i : Info) (u : Unit) : Except ImageFault (List Declaration) := do
  let p ← i.part ".debug_abbrev"
  if p.size ≤ u.table then throw .unsupported
  let n := p.bytes.size + 1
  return (← (Declaration.readTable n n).at ⟨p.bytes, i.order⟩ u.table).1

/-- The place of a table as the first entry of the unit gives it. -/
def tableBase (top : Option Entry) (name : Nat) : Except ImageFault Int :=
  match top.bind (·.attribute? name) with
  | some ⟨_, _, .number n⟩ => .ok n
  | some ⟨_, _, .flag b⟩ => .ok (if b then 1 else 0)
  | some _ => .error .mistyped
  | none => .error .unsupported

/-- Entry `index` of a table, whose entries have `size` bytes. -/
def tableNumber (i : Info) (p : Part) (base : Int) (index size : Nat) : Except ImageFault Nat := do
  let pos := base + (index * size : Nat)
  if Elf.tooWide < pos.natAbs || pos = Elf.tooWide then throw .overflow
  if pos < 0 then throw (.invalid ("negative seek value " ++ toString pos))
  return (← (fixed size).at ⟨p.bytes, i.order⟩ pos.toNat).1

/-- What an index stands for. -/
def resolveIndex (i : Info) (u : Unit) (top : Option Entry) (form index : Nat) :
    Except ImageFault Value := do
  if Form.isTextIndex form then
    let p ← i.part ".debug_str_offsets"
    let base ← tableBase top 0x72
    i.textAt ".debug_str" (← i.tableNumber p base index u.sizes.offset)
  else if Form.isAddressIndex form then
    let some p := i.part? ".debug_addr" | throw .unsupported
    let base ← tableBase top 0x73
    return .number (← i.tableNumber p base index u.sizes.address)
  else
    let (name, given) :=
      if Form.isLocationIndex form then (".debug_loclists", 0x8c) else (".debug_rnglists", 0x74)
    let p ← i.part name
    let base ← tableBase top given
    return .number (base + (← i.tableNumber p base index u.sizes.offset))

/-- What the written value of an attribute stands for. -/
def resolve (i : Info) (u : Unit) (top : Option Entry) (form : Nat) (v : Value) :
    Except ImageFault Value :=
  match v with
  | .number n =>
    if Form.isIndex form then i.resolveIndex u top form n.toNat else .ok v
  | _ => .ok v

/-- The texts that are given by their offset need nothing of the unit. -/
def resolveText (i : Info) (form : Nat) (v : Value) : Except ImageFault Value :=
  match v with
  | .number n =>
    if form = 0x0e then i.textAt ".debug_str" n.toNat
    else if form = 0x1f then i.textAt ".debug_line_str" n.toNat
    else .ok v
  | _ => .ok v

/-- The attributes of an entry, behind those read before. -/
def readAttributes (i : Info) (u : Unit) (resolve : Nat → Value → Except ImageFault Value) :
    List AttributeForm → List Attribute → Read (List Attribute)
  | [], as => return as
  | f :: fs, as => do
    let (form, raw) ← Form.readValue u.sizes f.form f.given
    let value ← resolve form (← i.resolveText form raw)
    i.readAttributes u resolve fs (Attribute.put ⟨f.name, form, value⟩ as)

/-- An entry, or the end of a list of children. -/
def readEntry (i : Info) (u : Unit) (table : Except ImageFault (List Declaration))
    (resolve : Nat → Value → Except ImageFault Value) : Read (Option Entry) := do
  let code ← unsignedLeb
  if code = 0 then return none
  match (← table).reverse.find? (·.code = code) with
  | none => throw .missing
  | some d => return some ⟨d.tag, ← i.readAttributes u resolve d.attributes []⟩

/-- Resolves attribute after attribute of the first entry, whose indices refer to places it gives
itself. -/
def resolveTop (i : Info) (u : Unit) (tag : Nat) (done : List Attribute) :
    List Attribute → Except ImageFault Entry
  | [] => .ok ⟨tag, done⟩
  | a :: as => do
    let value ← i.resolve u (some ⟨tag, done ++ a :: as⟩) a.form a.value
    i.resolveTop u tag (done ++ [{ a with value }]) as

/-- The first entry of a unit. -/
def readTop (i : Info) (u : Unit) (table : Except ImageFault (List Declaration)) :
    Read (Option Entry) := do
  match ← i.readEntry u table (fun _ v => .ok v) with
  | none => return none
  | some e => return some (← i.resolveTop u e.tag [] e.attributes)

/-- The entries found so far, newest first, and the fault that ended the reading, if one did. -/
structure Walk where
  entries : List Entry
  fault : Option ImageFault

/-- The entries of a unit from `pos` on. Each takes a byte, so their number is bounded. -/
def walk (i : Info) (u : Unit) (table : Except ImageFault (List Declaration)) (top : Option Entry)
    (s : Source) : Nat → List Entry → Nat → Walk
  | 0, es, _ => ⟨es, some .unreadable⟩
  | n + 1, es, pos =>
    if u.next ≤ pos then ⟨es, none⟩
    else match (i.readEntry u table (i.resolve u top)).at s pos with
      | .error f => ⟨es, some f⟩
      | .ok (e, behind) => i.walk u table top s n (e.toList ++ es) behind

/-- The entries of one unit; the first is read even where the unit ends before. -/
def walkUnit (i : Info) (u : Unit) (s : Source) (es : List Entry) : Walk :=
  let table := i.declarations u
  match (i.readTop u table).at s u.first with
  | .error f => ⟨es, some f⟩
  | .ok (top, behind) => i.walk u table top s (s.bytes.size + 1) (top.toList ++ es) behind

def walkUnits (i : Info) (p : Part) : Nat → List Entry → Nat → Walk
  | 0, es, _ => ⟨es, some .unreadable⟩
  | n + 1, es, pos =>
    if p.size ≤ pos then ⟨es, none⟩
    else
      let s : Source := ⟨p.bytes, i.order⟩
      match Unit.read.at s pos with
      | .error f => ⟨es, some f⟩
      | .ok (u, _) =>
        let w := i.walkUnit u s es
        if w.fault.isSome then w else i.walkUnits p n w.entries u.next

/-- All entries in their order, and the fault that kept from reading more, if there was one. -/
def entries (i : Info) : List Entry × Option ImageFault :=
  match i.part? ".debug_info" with
  | none => ([], none)
  | some p =>
    let w := i.walkUnits p (p.bytes.size + 1) [] 0
    (w.entries.reverse, w.fault)

end Info

end Hotpatch.Dwarf
