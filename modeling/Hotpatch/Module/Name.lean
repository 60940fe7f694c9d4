import Hotpatch.Json.Demand
import Hotpatch.Path

/-!
Names of patch modules. A name has the letters, digits, underscores and hyphens that the kernel
allows, begins with the mark of its mode, and fits into the kernel's field for it.
-/

namespace Hotpatch.ModuleName

/-- The longest name, with which a field of the kernel is full. -/
def longest : Nat := 55

/-- How the names of a mode begin: the kernel replaces functions itself, or a shadow runtime
does. -/
def mark (native : Bool) : List Char :=
  if native then "livepatch-".toList else "kpatch-".toList

def isAllowed (c : Char) : Bool :=
  ('A' ≤ c && c ≤ 'Z') || ('a' ≤ c && c ≤ 'z') || ('0' ≤ c && c ≤ '9') || c = '_' || c = '-'

/-- The name that a file gives: its own without the last extension. -/
def ofFile (path : String) : List Char :=
  let n := (fileName path).toList
  match Text.cutLast? '.' n with
  | some (base, _) => base
  | none => n

/-- The name before it is made to fit: the given one, that of the only patch, or a general one. -/
def base (patches : List String) (name : Option String) : List Char :=
  match name, patches with
  | some n, ps => if n ≠ "" then n.toList else ofPatches ps
  | none, ps => ofPatches ps
where
  ofPatches : List String → List Char
    | [p] => ofFile p
    | _ => "patch".toList

def fit (native : Bool) (base : List Char) : List Char :=
  let m := mark native
  (if m.isPrefixOf base then base else m ++ base).take longest

/-- The name of the module for some patches. -/
def make (patches : List String) (name : Option String) (native : Bool) : Except Failure String :=
  let b := (base patches name).map fun c => if isAllowed c then c else '-'
  if b.isEmpty then .error (.configuration "empty module name")
  else .ok (String.ofList (fit native b))

/-- The only patch of a series, if it has but one; the items of an object can't be asked for by
their place. -/
def onlyPatch (patches : Json) : Except Fault (List String) := do
  match patches, ← patches.items with
  | .obj _, [_] => throw .unknownName
  | _, [p] => return [← p.text]
  | _, _ => return []

/-- The name of the module for values of any make. -/
def ofValues (patches name : Json) (native : Bool) : Except Fault String :=
  if name.isTrue then do (make [] (some (← name.text)) native).mapError .failure
  else do (make (← onlyPatch patches) none native).mapError .failure

end Hotpatch.ModuleName
