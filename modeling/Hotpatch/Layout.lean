import Hotpatch.Dwarf.Entry
import Hotpatch.Elf.Inspection
import Hotpatch.Json.Value

/-!
The sizes of the records in a kernel's special sections. They are read from the debug information
of its image, where each record is a structure with a name and a size; the diff tool takes them
from its variables. Main definitions: `Layout.required`, `Layout.probe`, `Layout.environment`.
-/

namespace Hotpatch

/-- A structure of the debug information. -/
structure Definition where
  name : Dwarf.Value
  size : Dwarf.Value
  deriving DecidableEq, Repr

namespace Definition

/-- An entry that defines a structure; a declaration has no size. -/
def ofEntry? (e : Dwarf.Entry) : Option Definition :=
  if e.tag = 0x13 then
    match e.attribute? 0x03, e.attribute? 0x0b with
    | some n, some s => some ⟨n.value, s.value⟩
    | _, _ => none
  else none

/-- The name as a text, if it is one; a row of bytes can be none. -/
def title (d : Definition) : Except Fault (Option String) :=
  match d.name with
  | .text (some t) => .ok (some (Text.decodeLossy t))
  | .block _ => .error .illTyped
  | _ => .ok none

/-- The definitions of an image in their order, and what kept from reading more. -/
def ofImage (i : Elf.Image) : Except ImageFault (List Definition × Option ImageFault) :=
  (Dwarf.Info.ofImage i).map fun info =>
    (info.entries.1.filterMap ofEntry?, info.entries.2)

end Definition

/-- The record sizes by the names of the structures. A size is a number as a rule, but it may be
given as a mere mark as well. -/
structure Layout where
  sizes : List (String × Json)

namespace Layout

def source : String := "livepatch_build.elf.section_layout"

def empty : Layout := ⟨[]⟩

/-- The variable that takes the size of a structure. -/
def variableNames : List (String × String) := [
  ("alt_instr", "ALT_STRUCT_SIZE"), ("bug_entry", "BUG_STRUCT_SIZE"),
  ("exception_table_entry", "EX_STRUCT_SIZE"), ("paravirt_patch_site", "PARA_STRUCT_SIZE"),
  ("fixup_entry", "FIXUP_STRUCT_SIZE")]

def size? (l : Layout) (name : String) : Option Json := l.sizes.lookup name

/-- The variables for the diff tool; a structure without one is refused. -/
def environment (l : Layout) : Except Fault (List (String × String)) :=
  l.sizes.mapM fun p =>
    match variableNames.lookup p.1 with
    | some v => .ok (v, p.2.shown)
    | none => .error .unknownName

def isPowerPc (arch : String) : Bool := Text.starts "ppc64" arch || arch = "powerpc"

/-- The structures whose sizes a target needs. -/
def required (arch : String) (paravirt : Bool) : List String :=
  let shared := ["bug_entry", "exception_table_entry"]
  if isPowerPc arch then "fixup_entry" :: shared
  else "alt_instr" :: shared ++ if paravirt then ["paravirt_patch_site"] else []

/-- The first definition of each name, as far as they are read: what kept from reading more only
matters where a name is still without one. -/
def firsts (names : List String) (fault : Option ImageFault) :
    List Definition → List (String × Dwarf.Value) → Except Fault (List (String × Dwarf.Value))
  | [], found =>
    match fault with
    | some f => .error (.ofImage f)
    | none => .ok found
  | d :: ds, found => do
    match ← d.title with
    | none => firsts names fault ds found
    | some n =>
      if names.contains n && (found.lookup n).isNone then
        let found := found ++ [(n, d.size)]
        if found.length = names.length then return found else firsts names fault ds found
      else firsts names fault ds found

/-- The size of a structure: a number above zero or a mark that is set. -/
def usable (name : String) : Option Dwarf.Value → Except Fault Json
  | some (.number k) => if 0 < k then .ok (.int k) else .error (.failure (.layout name))
  | some (.flag true) => .ok (.bool true)
  | some (.text (some (_ :: _))) | some (.block (_ :: _)) => .error .illTyped
  | _ => .error (.failure (.layout name))

/-- The definitions in a kernel image and what kept from reading more; none if it has no debug
information. -/
def look (i : Elf.Image) : Except ImageFault (Option (List Definition × Option ImageFault)) := do
  if ← Dwarf.Info.isIn i then return some (← Definition.ofImage i) else return none

/-- The first definition of each name in a kernel image. -/
def scan (image : String) (names : List String) : Act (List (String × Dwarf.Value)) := do
  match ← Elf.inspect image look with
  | none => Act.fail (.prerequisite (image ++ " has no debug info"))
  | some (ds, fault) => Act.ofExcept (firsts names fault ds [])

/-- How many digits a number in a message has at most. -/
def longest : Nat := 4300

/-- The text of a size in messages. -/
def sizeText (size : Json) : Except Fault String :=
  if longest < size.shown.length then
    .error (.invalid ("Exceeds the limit (4300 digits) for integer string conversion; " ++
      "use sys.set_int_max_str_digits() to increase the limit"))
  else .ok size.shown

/-- The sizes of the structures, noted one by one, up to the first that has none. -/
def settle (found : List (String × Dwarf.Value)) : List String → Act (List (String × Json))
  | [] => return []
  | n :: ns => do
    let size ← Act.ofExcept (usable n (found.lookup n))
    let text ← Act.ofExcept (sizeText size)
    Log.debug source ("sizeof(struct " ++ n ++ ") = " ++ text)
    return (n, size) :: (← settle found ns)

/-- Finds the sizes a target needs in a kernel image. -/
def probe (image arch : String) (paravirt : Bool) : Act Layout := do
  let names := required arch paravirt
  Log.debug source
    ("Looking up special section structs " ++ Text.quotedList names ++ " in " ++ image)
  match ← Act.attempt (scan image names) with
  | .ok found => return ⟨← settle found names⟩
  | .error e => match Elf.unreadable? e with
    | some cause =>
      Act.fail (.prerequisite ("can't read debug info from " ++ image ++ ": " ++ cause))
    | none => throw e

end Layout

end Hotpatch
