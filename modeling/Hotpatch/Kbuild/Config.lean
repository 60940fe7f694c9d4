import Hotpatch.Host
import Hotpatch.Text.Blank
import Hotpatch.Text.Word

/-!
Kernel configurations. Each line assigns a value to an option or says that the option is not set;
the last assignment counts, and options keep the order in which they first appear.
-/

namespace Hotpatch.Kbuild

structure Config where
  options : List (String × String)
  deriving DecidableEq, Repr

namespace Config

def empty : Config := ⟨[]⟩

/-- Gives an option its value, at its place if it has one already. -/
def assign (name value : String) : List (String × String) → List (String × String)
  | [] => [(name, value)]
  | (n, v) :: os => if n = name then (n, value) :: os else (n, v) :: assign name value os

/-- The option that a comment says is not set. -/
def unset? (line : List Char) : Option String := do
  let r ← Text.after? "# CONFIG_".toList line
  let name := r.takeWhile Text.isWord
  let _ ← Text.after? " is not set".toList (r.dropWhile Text.isWord)
  if name.isEmpty then none else some (String.ofList ("CONFIG_".toList ++ name))

/-- The assignment of a line without blanks at its ends; an option alone is switched on. -/
def assignment? (line : List Char) : Option (String × String) :=
  if line.head? = some '#' then (unset? line).map (·, "n")
  else if "CONFIG_".toList.isPrefixOf line then
    match Text.cut? '=' line with
    | some (name, value) => some (String.ofList name, String.ofList (Text.strip (· = '"') value))
    | none => some (String.ofList line, "y")
  else none

/-- The assignments of a text whose lines end with line feeds. -/
def assignments (text : String) : List (String × String) :=
  (Text.feedLines text.toList).filterMap fun l => assignment? (Text.strip Text.isBlank l)

def ofText (text : String) : Config :=
  ⟨(assignments text).foldl (fun os a => assign a.1 a.2 os) []⟩

def value? (c : Config) (name : String) : Option String := c.options.lookup name

/-- Whether an option is built in or a module. -/
def isEnabled (c : Config) (name : String) : Bool :=
  c.value? name = some "y" || c.value? name = some "m"

/-- Reads the configuration in a file. -/
def load (path : String) : Act Config := do
  let path := clean path
  if !(← Act.present path) then throw (.disk (.noConfiguration path))
  return ofText (← Act.readText path)

end Config

end Hotpatch.Kbuild
