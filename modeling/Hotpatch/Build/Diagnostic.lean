import Hotpatch.Text.Match

/-!
Undefined symbols in the output of a build. The linker writes "undefined reference to `name'" with
one of several quotes, modpost writes "\"name\" [module] undefined!". Main definition: `undefined`.
-/

namespace Hotpatch.Diagnostic

/-- A pattern tried at the front of a text: the name it finds and what follows the match. -/
abbrev Pattern := List Char → Option (List Char × List Char)

/-- The names that a pattern finds in a text from left to right, matches not overlapping; `skip`
characters belong to the last match. -/
def findFrom (p : Pattern) (skip : Nat) : List Char → List (List Char)
  | [] => []
  | c :: cs =>
    match skip with
    | k + 1 => findFrom p k cs
    | 0 => match p (c :: cs) with
      | some (name, rest) => name :: findFrom p ((c :: cs).length - rest.length - 1) cs
      | none => findFrom p 0 cs

def find (p : Pattern) (line : List Char) : List (List Char) := findFrom p 0 line

def isOpening (c : Char) : Bool := c = '`' || c = '\'' || c = '‘'

def isClosing (c : Char) : Bool := c = '\'' || c = '’'

def reference : Pattern := fun cs => do
  match ← Text.after? "undefined reference to ".toList cs with
  | q :: r =>
    let inName (c : Char) : Bool := c ≠ '`' && c ≠ '\'' && c ≠ '’'
    let name := r.takeWhile inName
    match r.dropWhile inName with
    | e :: rest => if isOpening q && isClosing e && !name.isEmpty then some (name, rest) else none
    | [] => none
  | [] => none

def modpost : Pattern := fun cs => do
  let r ← Text.after? ['"'] cs
  let name := r.takeWhile (· ≠ '"')
  let r ← Text.after? "\" [".toList (r.dropWhile (· ≠ '"'))
  let module := r.takeWhile (· ≠ ']')
  let rest ← Text.after? "] undefined!".toList (r.dropWhile (· ≠ ']'))
  if name.isEmpty || module.isEmpty then none else some (name, rest)

/-- The symbols that the lines of a build's output call undefined, each once and sorted. -/
def undefined (output : List String) : List String :=
  ((output.flatMap fun line =>
    (find reference line.toList ++ find modpost line.toList).map String.ofList).eraseDups).mergeSort

end Hotpatch.Diagnostic
