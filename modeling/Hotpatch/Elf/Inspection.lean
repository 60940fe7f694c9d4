import Hotpatch.Elf.Symbol
import Hotpatch.Host
import Hotpatch.Toolchain.Banner

/-!
What the build wants to know of the ELF files it meets: the symbols a module defines, the compiler
a kernel was built with, and whether the linker left an object that can be linked.
-/

namespace Hotpatch.Elf

def source : String := "livepatch_build.elf.symbols"

/-- The cause of a fault that says a file can't be read or is no ELF file. -/
def unreadable? : Fault → Option String
  | .disk e => some e.message
  | .image f => if f.isFormat then some "<ELFError>" else none
  | _ => none

/-- Reads an image from a file and looks into it. -/
def inspect {α} (path : String) (look : Image → Except ImageFault α) : Act α := do
  let bs ← Act.query (·.read · path)
  match Image.ofBytes bs.toArray >>= look with
  | .ok a => return a
  | .error f => throw (.ofImage f)

/-- The names of the symbols a file defines for others, each once and sorted. -/
def definedSymbols (path : String) : Act (List String) := do
  match ← Act.attempt (inspect path Image.definedSymbols) with
  | .ok names => return names.eraseDups.mergeSort
  | .error e => match unreadable? e with
    | some cause => Act.fail (.staging ("can't read symbols from " ++ path ++ ": " ++ cause))
    | none => throw e

/-- The comments of a section, which are separated by zeros. -/
def comments (bs : Bytes) : List String :=
  (Text.pieces 0 bs).map fun c => Text.trim (Text.decodeLossy c)

/-- The version in the first comment of a compiler. -/
def versionIn (bs : Bytes) : Option String :=
  (comments bs).findSome? fun c =>
    (Text.after? "GCC:".toList c.toList).map fun r => Banner.versionOf (String.ofList r)

def readComments (i : Image) : Except ImageFault (Option Bytes) := do
  match Image.sectionNamed? (← i.sections) ".comment" with
  | none => return none
  | some s => return some (← i.content s)

/-- The version of the compiler that a kernel image records. -/
def compilerVersion (path : String) : Act (Option String) := do
  match ← Act.attempt (inspect path readComments) with
  | .ok bs => return bs.bind versionIn
  | .error e => match unreadable? e with
    | some cause =>
      Log.warning source ("Could not read .comment from " ++ path ++ ": " ++ cause)
      return none
    | none => throw e

/-- Whether a path leads to an object that can be linked. -/
def isRelocatableObject (path : String) : Act Bool := do
  if ← Act.isFile (clean path) then
    return isRelocatable (← Act.query (·.read · (clean path))).toArray
  else return false

end Hotpatch.Elf
