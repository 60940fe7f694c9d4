import Hotpatch.Disk.Access
import Hotpatch.Text.Blank

/-!
The records Kbuild leaves beside its targets. The record of `dir/name` is the file `dir/.name.cmd`;
in it a line `cmd_… := …` gives the command that made the target, and the command names the objects
that went into it, directly or in a response file.
-/

namespace Hotpatch.Kbuild

/-- The endings of what can be linked into something. -/
def isPart (s : String) : Bool := Text.ends ".o" s || Text.ends ".a" s || Text.ends ".ko" s

/-- What follows `:=` after blanks. -/
def assigned? (cs : List Char) : Option (List Char) :=
  (Text.after? ":=".toList (cs.dropWhile Text.isBlank)).map fun r => r.dropWhile Text.isBlank

/-- What follows the last `:=` inside a run without blanks that has at least one character before
it; `rest` is what follows the run. -/
def assignedInside? : List Char → List Char → Option (List Char)
  | [], _ => none
  | _ :: cs, rest =>
    match assignedInside? cs rest with
    | some r => some r
    | none => (Text.after? ":=".toList cs).map fun r => (r ++ rest).dropWhile Text.isBlank

/-- The command of a line that records one: after the name come `:=` and the command. A `:=` that
stands by itself is taken before one that is part of the name. -/
def command? (line : List Char) : Option (List Char) := do
  let body ← Text.after? "cmd_".toList ((Text.after? "saved".toList line).getD line)
  let name := body.takeWhile fun c => !Text.isBlank c
  let rest := body.dropWhile fun c => !Text.isBlank c
  if name.isEmpty then none
  else match assigned? rest with
    | some r => some r
    | none => assignedInside? name rest

def isSeparator (c : Char) : Bool :=
  Text.isBlank c || [';', '\'', '"', '|', '<', '>', '(', ')', '{', '}'].contains c

/-- The words of a command; quotes and brackets separate them too. -/
def tokens (command : List Char) : List String :=
  (Text.runs isSeparator command).map String.ofList

/-- The commands of a record, one for each line that has one. -/
def commands (record : String) : List (List Char) :=
  (Text.splitLines record.toList).filterMap command?

/-- A path as a command in the tree's root names it; a bare name belongs to the directory. -/
def resolve (token directory : String) : String :=
  let t := String.ofList ((Text.after? "./".toList token.toList).getD token.toList)
  if t.toList.contains '/' || directory = "" then normalize t else normalize (glue directory t)

/-- What was found, in order, and why the search was broken off, if it was. -/
structure Found (α : Type) where
  items : List α
  stop : Option DiskError
  deriving DecidableEq, Repr

namespace Found

def all {α} (items : List α) : Found α := ⟨items, none⟩

/-- What is found behind counts only where the search got there. -/
def append {α} (a b : Found α) : Found α :=
  if a.stop.isSome then a else ⟨a.items ++ b.items, b.stop⟩

def ofEach {α β} (f : α → Found β) (as : List α) : Found β :=
  as.foldr (fun a rest => (f a).append rest) (all [])

end Found

/-- The objects that a response file lists; a file that is not there lists none. -/
def listed (d : Disk) (cwd : Place) (source file directory : String) : Found String :=
  match d.look? cwd (under source file) with
  | .error e => ⟨[], some e⟩
  | .ok (some (.file f)) =>
    let own := dirname (normalize file)
    let words := Text.words (Text.decodeLossy f.content)
    .all ((words.filter isPart).map (resolve · (if own = "" then directory else own)))
  | .ok _ => .all []

/-- The objects that a word of a command stands for. -/
def inputsOf (d : Disk) (cwd : Place) (source directory token : String) : Found String :=
  match token.toList with
  | '@' :: file => listed d cwd source (String.ofList file) directory
  | cs => .all (if isPart token && cs.head? ≠ some '-' then [resolve token directory] else [])

/-- The objects that a command names, in order, as far as they can be told. -/
def inputs (d : Disk) (cwd : Place) (source directory : String) (command : List Char) :
    Found String :=
  .ofEach (inputsOf d cwd source directory) (tokens command)

/-- The target that a record belongs to, as a path in the tree; a file with another name is no
record. -/
def target? (cwd : Place) (record source : String) : Option String :=
  let name := (fileName record).toList
  match name with
  | '.' :: rest =>
    if Text.ends ".cmd" (String.ofList name) then
      let t := String.ofList (rest.take (rest.length - 4))
      let dir := relative (Place.text cwd) (parent record) source
      some (if dir = "." then t else normalize (glue dir t))
    else none
  | _ => none

/-- The record of a target, given by its path in the tree. -/
def recordOf (source target : String) : String :=
  under (under source (dirname target)) ("." ++ basename target ++ ".cmd")

/-- Whether a record describes the compilation of one source file. -/
def isCompilation (record : String) : Bool :=
  (commands record).any fun c =>
    let ts := tokens c
    ts.contains "-c" && ts.any fun t => Text.ends ".c" t || Text.ends ".S" t

/-- Whether a file records a compilation; one that can't be read doesn't. -/
def recordsCompilation (d : Disk) (cwd : Place) (file : String) : Bool :=
  match d.readText cwd file with
  | .ok text => isCompilation text
  | .error _ => false

/-- Asks whether a file records a compilation; the path has to be one a file can have. -/
def compilationAt (d : Disk) (cwd : Place) (file : String) : Except DiskError Bool :=
  if file.toList.contains '\x00' then .error (.failed .nullByte file)
  else .ok (recordsCompilation d cwd file)

end Hotpatch.Kbuild
