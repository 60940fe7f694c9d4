import Hotpatch.Text.Lines
import Hotpatch.Text.Match

/-!
Paths as texts. A `Path` is a text taken apart: how many slashes lead it, and its components
without empty ones and dots. `clean` writes it again; `normalize` also takes every `..` back with
the component before it; `relative` leads from one place to another.
-/

namespace Hotpatch

/-- The slashes that lead a path count as none, one or two; three are one. -/
structure Path where
  slashes : Nat
  parts : List String
  deriving DecidableEq, Repr

namespace Path

def leading : List Char → Nat
  | '/' :: '/' :: '/' :: _ => 1
  | '/' :: '/' :: _ => 2
  | '/' :: _ => 1
  | _ => 0

def ofText (s : String) : Path :=
  ⟨leading s.toList,
    ((Text.pieces '/' s.toList).map String.ofList).filter fun p => p ≠ "" && p ≠ "."⟩

def text (p : Path) : String :=
  let t := "".pushn '/' p.slashes ++ "/".intercalate p.parts
  if t = "" then "." else t

/-- Takes one more component: `..` takes back the last one, stays at the root and piles up where
nothing is left to take back. The components are kept last first. -/
def push (rooted : Bool) : List String → String → List String
  | [], c => if c = ".." && rooted then [] else [c]
  | d :: ds, c => if c = ".." && d ≠ ".." then ds else c :: d :: ds

def collapse (rooted : Bool) (parts : List String) : List String :=
  (parts.foldl (push rooted) []).reverse

end Path

/-- The path without needless slashes and dots. -/
def clean (s : String) : String := (Path.ofText s).text

/-- The path without needless slashes and dots, and with every `..` resolved in the text. -/
def normalize (s : String) : String :=
  let p := Path.ofText s
  Path.text ⟨p.slashes, Path.collapse (p.slashes ≠ 0) p.parts⟩

def isAbsolute (s : String) : Bool := Text.starts "/" s

/-- `b` seen from the directory `a`, both written out in full. -/
def glue (a b : String) : String :=
  if isAbsolute b then b
  else if a = "" || Text.ends "/" a then a ++ b
  else a ++ "/" ++ b

/-- `b` seen from the directory `a`, in clean form. -/
def under (a b : String) : String := clean (glue a b)

/-- The text after the last slash. -/
def basename (s : String) : String :=
  match Text.cutLast? '/' s.toList with
  | none => s
  | some (_, b) => String.ofList b

/-- The text before the last slash, without slashes at its end unless it is all slashes. -/
def dirname (s : String) : String :=
  match Text.cutLast? '/' s.toList with
  | none => ""
  | some (d, _) =>
    let d := d ++ ['/']
    if d.all (· = '/') then String.ofList d
    else String.ofList (d.reverse.dropWhile (· = '/')).reverse

/-- The last component of a path, empty where there is none. -/
def fileName (s : String) : String := ((Path.ofText s).parts.getLast?).getD ""

/-- The path without its last component; a root is its own parent. -/
def parent (s : String) : String :=
  let p := Path.ofText s
  Path.text ⟨p.slashes, p.parts.dropLast⟩

/-- The last component without its last extension; a dot at either end starts none. -/
def stem (s : String) : String :=
  let n := (fileName s).toList
  match Text.cutLast? '.' n with
  | none => String.ofList n
  | some (b, e) => if b.isEmpty || e.isEmpty then String.ofList n else String.ofList b

/-- The path as an absolute one; nothing in it is resolved. -/
def absolute (cwd s : String) : String :=
  if isAbsolute s then clean s else clean (glue cwd s)

def commonLength : List String → List String → Nat
  | a :: as, b :: bs => if a = b then commonLength as bs + 1 else 0
  | _, _ => 0

/-- The path that leads from `start` to `s`, both resolved in the text from `cwd`. -/
def relative (cwd s start : String) : String :=
  let p := (Path.ofText (normalize (glue cwd s))).parts
  let q := (Path.ofText (normalize (glue cwd start))).parts
  let n := commonLength p q
  Path.text ⟨0, List.replicate (q.length - n) ".." ++ p.drop n⟩

end Hotpatch
