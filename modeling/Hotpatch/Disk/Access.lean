import Hotpatch.Disk
import Hotpatch.Path

/-!
Working on a file tree by paths. A path is followed from a working directory name by name; every
name on the way has to be a directory, and `..` leads to the one above. Each operation gives the
tree it leaves or the reason why it is refused.
-/

namespace Hotpatch

inductive Errno where
  | notFound | denied | present | notDirectory | isDirectory | outOfRange | nameTooLong
  /-- A path holds the character that ends a path. -/
  | nullByte
  deriving DecidableEq, Repr

def Errno.text : Errno → String
  | .notFound => "[Errno 2] No such file or directory"
  | .denied => "[Errno 13] Permission denied"
  | .present => "[Errno 17] File exists"
  | .notDirectory => "[Errno 20] Not a directory"
  | .isDirectory => "[Errno 21] Is a directory"
  | .outOfRange => "[Errno 22] Invalid argument"
  | .nameTooLong => "[Errno 36] File name too long"
  | .nullByte => "embedded null byte"

inductive DiskError where
  /-- An operation on one path was refused. -/
  | failed (why : Errno) (path : String)
  /-- An operation on a file that is open was refused. -/
  | broken (why : Errno)
  /-- More directories are to be made one inside the other than can be. -/
  | tooDeep
  /-- A tree to be taken away is none. -/
  | notTree (path : String)
  /-- A file was to be copied onto itself; both paths as messages show them. -/
  | same (source target : String)
  /-- Something stands where a file was to be moved. -/
  | occupied (path : String)
  /-- There is no kernel configuration at the path. -/
  | noConfiguration (path : String)
  | stated (message : String)
  deriving DecidableEq, Repr

def pathQuoted (p : String) : String := "PosixPath(" ++ Text.quoted p ++ ")"

def DiskError.message : DiskError → String
  | .failed .nullByte _ => Errno.nullByte.text
  | .failed why p => why.text ++ ": " ++ Text.quoted p
  | .broken why => why.text
  | .tooDeep => "maximum recursion depth exceeded"
  | .notTree p => Errno.notDirectory.text ++ ": " ++ pathQuoted p
  | .same a b => a ++ " and " ++ b ++ " are the same file"
  | .occupied p => "Destination path '" ++ p ++ "' already exists"
  | .noConfiguration p => "Configuration file not found: " ++ p
  | .stated m => m

namespace Disk

/-- How many bytes a name has at most. -/
def longestName : Nat := 255

/-- How many bytes a path has at most. -/
def longestPath : Nat := 4095

/-- One name further from `here`, which has to be a directory. -/
def step (d : Disk) (here : Place) (name : String) : Except Errno Place :=
  match d.node? here with
  | some .dir =>
    if longestName < name.utf8ByteSize then .error .nameTooLong
    else .ok (if name = ".." then here.dropLast else here ++ [name])
  | some (.file _) => .error .notDirectory
  | none => .error .notFound

/-- Refuses what can't be a path at all. -/
def acceptable (s : String) : Except Errno Unit := do
  if s = "" then throw .notFound
  if s.toList.contains '\x00' then throw .nullByte
  if longestPath < s.utf8ByteSize then throw .nameTooLong

/-- Where the names of a path lead; the last one need not stand for anything. -/
def reach (d : Disk) (cwd : Place) (s : String) : Except Errno Place := do
  acceptable s
  let p := Path.ofText s
  let here ← p.parts.foldlM d.step (if p.slashes = 0 then cwd else [])
  if Text.ends "/." s then let _ ← d.step here "."
  return here

/-- Where a path leads; with a slash at its end it has to lead to a directory. -/
def locate (d : Disk) (cwd : Place) (s : String) : Except Errno Place := do
  let here ← d.reach cwd s
  if Text.ends "/" s then let _ ← d.step here "."
  return here

def find (d : Disk) (cwd : Place) (s : String) : Except Errno (Place × Node) := do
  let p ← d.locate cwd s
  match d.node? p with
  | some n => return (p, n)
  | none => throw .notFound

/-- What stands where a path leads, if anything does; a name that is too long is refused. -/
def look? (d : Disk) (cwd : Place) (s : String) : Except DiskError (Option Node) :=
  match d.find cwd s with
  | .ok (_, n) => .ok (some n)
  | .error .nameTooLong => .error (.failed .nameTooLong s)
  | .error _ => .ok none

def present (d : Disk) (cwd : Place) (s : String) : Bool := (d.find cwd s).toOption.isSome

def isDir (d : Disk) (cwd : Place) (s : String) : Bool :=
  match d.find cwd s with
  | .ok (_, .dir) => true
  | _ => false

def isFile (d : Disk) (cwd : Place) (s : String) : Bool :=
  match d.find cwd s with
  | .ok (_, .file _) => true
  | _ => false

def refused {α} (s : String) : Except Errno α → Except DiskError α
  | .ok a => .ok a
  | .error e => .error (.failed e s)

def open? (d : Disk) (cwd : Place) (s : String) : Except DiskError File :=
  match d.find cwd s with
  | .ok (_, .file f) => .ok f
  | .ok (_, .dir) => .error (.failed .isDirectory s)
  | .error e => .error (.failed e s)

def read (d : Disk) (cwd : Place) (s : String) : Except DiskError Bytes :=
  (d.open? cwd s).map File.content

/-- The text of a file with a line feed for every line end; what can't be decoded is replaced. -/
def readText (d : Disk) (cwd : Place) (s : String) : Except DiskError String :=
  (d.read cwd s).map fun bs => String.ofList (Text.unify (Text.decodeLossy bs).toList)

/-- The directory in which the last name of a path is looked for. -/
def above (s : String) : String :=
  let cs := s.toList.reverse.dropWhile (· = '/')
  String.ofList ((cs.dropWhile (· ≠ '/')).reverse ++ ['.'])

/-- Writes a whole file at the time `t`, making it where there is none; a slash at the end of the
path asks for a directory, which can't be written. -/
def writeAt (d : Disk) (cwd : Place) (s : String) (c : Bytes) (t : Int) :
    Except DiskError Disk := do
  if Text.ends "/" s then
    refused s (acceptable s)
    let _ ← refused s (d.reach cwd (above s))
    throw (.failed .isDirectory s)
  let p ← refused s (d.reach cwd s)
  if d.isDirAt p then throw (.failed .isDirectory s)
  return d.store p c t

def write (d : Disk) (cwd : Place) (s : String) (c : Bytes) : Except DiskError Disk :=
  d.writeAt cwd s c d.clock

def makeDir (d : Disk) (cwd : Place) (s : String) : Except DiskError Disk := do
  let p ← refused s (d.locate cwd s)
  match d.node? p with
  | some _ => throw (.failed .present s)
  | none => return d.put p .dir

/-- What making directories leaves: the tree, and why it was refused if it was. -/
abbrev Made := Disk × Option DiskError

/-- Accepts a refusal where there is a directory already. -/
def settle (d : Disk) (cwd : Place) (s : String) : Except DiskError Disk → Made
  | .ok d' => (d', none)
  | .error (.failed .notFound s') => (d, some (.failed .notFound s'))
  | .error e => (d, if d.isDir cwd s then none else some e)

/-- Makes the directory of the first `n` components of a path, and those above it, `depth` of them
at most. What was made stays, also if the rest is refused. -/
def makePrefix (d : Disk) (cwd : Place) (p : Path) : Nat → Nat → Made
  | _, 0 => (d, some .tooDeep)
  | 0, _ + 1 => let s := Path.text ⟨p.slashes, []⟩; d.settle cwd s (d.makeDir cwd s)
  | n + 1, depth + 1 =>
    let s := Path.text ⟨p.slashes, p.parts.take (n + 1)⟩
    match d.makeDir cwd s with
    | .error (.failed .notFound _) =>
      match d.makePrefix cwd p n depth with
      | (d, none) => d.settle cwd s (d.makeDir cwd s)
      | r => r
    | r => d.settle cwd s r

/-- How many directories are made one inside the other at most. -/
def deepest : Nat := 980

/-- Makes a directory with all above it; one that is there already is accepted. -/
def makeDirs (d : Disk) (cwd : Place) (s : String) : Made :=
  let p := Path.ofText s
  d.makePrefix cwd p p.parts.length deepest

def unlink (d : Disk) (cwd : Place) (s : String) : Except DiskError Disk := do
  match ← refused s (d.find cwd s) with
  | (p, .file _) => return d.erase p
  | (_, .dir) => throw (.failed .isDirectory s)

def removeTree (d : Disk) (cwd : Place) (s : String) : Except DiskError Disk := do
  match ← refused s (d.find cwd s) with
  | (p, .dir) => return d.erase p
  | (_, .file _) => throw (.notTree s)

/-- Takes away whatever stands at a path, if anything does. -/
def clear (d : Disk) (cwd : Place) (s : String) : Disk :=
  match d.find cwd s with
  | .ok (p, _) => d.erase p
  | .error _ => d

/-- Whether two paths lead to the same thing. -/
def sameAs (d : Disk) (cwd : Place) (a b : String) : Bool :=
  match d.find cwd a, d.find cwd b with
  | .ok (p, _), .ok (q, _) => p = q
  | _, _ => false

/-- Copies a file with its time; into a directory under its own name. -/
def copy (d : Disk) (cwd : Place) (source target : String) : Except DiskError Disk := do
  let (target, shown) :=
    if d.isDir cwd target then
      let t := glue target (basename source)
      (t, Text.quoted t)
    else (target, pathQuoted target)
  if target.toList.contains '\x00' then throw (.failed .nullByte target)
  if d.sameAs cwd source target then throw (.same (pathQuoted source) shown)
  let f ← d.open? cwd source
  d.writeAt cwd target f.content f.time

/-- Moves a file; into a directory under its own name, where nothing may stand yet. -/
def move (d : Disk) (cwd : Place) (source target : String) : Except DiskError Disk := do
  let into := d.isDir cwd target
  let target := if into then glue target (basename source) else target
  if into && d.present cwd target then throw (.occupied target)
  let f ← d.open? cwd source
  let p ← refused source (d.locate cwd source)
  let q ← refused target (d.locate cwd target)
  return (d.erase p).put q (.file f)

/-- Adds to the end of the file with a serial number, if it still stands at its place. -/
def append (d : Disk) (p : Place) (serial : Nat) (c : Bytes) : Disk :=
  match d.file? p with
  | some f => if f.serial = serial then d.store p (f.content ++ c) d.clock else d
  | none => d

end Disk

end Hotpatch
