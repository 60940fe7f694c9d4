import Hotpatch.Text.Integer
import Hotpatch.Text.Match
import Hotpatch.Text.Quoted

/-!
The options of the command line and how its arguments are taken apart. A long option may be cut
short as long as it can't be another one; short options may be joined, the last of them with its
value; only the first row of arguments that are no options counts as patches. Main definition:
`parse`.
-/

namespace Hotpatch.CommandLine

inductive Key where
  | help | sourcedir | targetVersion | config | vmlinux | jobs | target | name | output | ootModule
  | cacheDir | fetchCommand | diffCompiler | moduleTool | ldFlag | makeArg | debug | skipCleanup
  | skipGccCheck | settings | saveSettings
  deriving DecidableEq, Repr

structure Spec where
  key : Key
  flags : List String
  takesValue : Bool
  deriving DecidableEq, Repr

def specs : List Spec := [
  ⟨.help, ["-h", "--help"], false⟩,
  ⟨.sourcedir, ["-s", "--sourcedir"], true⟩,
  ⟨.targetVersion, ["-t", "--target-version"], true⟩,
  ⟨.config, ["-c", "--config"], true⟩,
  ⟨.vmlinux, ["-v", "--vmlinux"], true⟩,
  ⟨.jobs, ["-j", "--jobs"], true⟩,
  ⟨.target, ["--target"], true⟩,
  ⟨.name, ["-n", "--name"], true⟩,
  ⟨.output, ["-o", "--output"], true⟩,
  ⟨.ootModule, ["--oot-module"], true⟩,
  ⟨.cacheDir, ["--cache-dir"], true⟩,
  ⟨.fetchCommand, ["--fetch-command"], true⟩,
  ⟨.diffCompiler, ["--diff-compiler"], true⟩,
  ⟨.moduleTool, ["--module-tool"], true⟩,
  ⟨.ldFlag, ["--ld-flag"], true⟩,
  ⟨.makeArg, ["--make-arg"], true⟩,
  ⟨.debug, ["-d", "--debug"], false⟩,
  ⟨.skipCleanup, ["--skip-cleanup"], false⟩,
  ⟨.skipGccCheck, ["--skip-gcc-check"], false⟩,
  ⟨.settings, ["--settings"], true⟩,
  ⟨.saveSettings, ["--save-settings"], true⟩]

/-- All options by each of their spellings. -/
def flagTable : List (String × Spec) := specs.flatMap fun s => s.flags.map (·, s)

def Spec.title (s : Spec) : String := "/".intercalate s.flags

/-- What the arguments say. An option that takes a value is given none at all by two hyphens joined
to it: where a text is wanted this is the empty one. -/
structure Arguments where
  patches : List String
  sourcedir : Option String
  targetVersion : Option String
  config : Option String
  vmlinux : Option String
  jobs : Option Int
  targets : List (Option String)
  name : Option String
  output : Option String
  ootModule : Option String
  cacheDir : Option String
  fetchCommand : Option String
  diffCompiler : Option String
  moduleTool : Option String
  ldFlags : List (Option String)
  makeArgs : List (Option String)
  debug : Bool
  skipCleanup : Bool
  skipGccCheck : Bool
  settings : Option String
  saveSettings : Option String
  deriving DecidableEq, Repr

def Arguments.none : Arguments where
  patches := []
  sourcedir := .none
  targetVersion := .none
  config := .none
  vmlinux := .none
  jobs := some 0
  targets := []
  name := .none
  output := .none
  ootModule := .none
  cacheDir := .none
  fetchCommand := .none
  diffCompiler := .none
  moduleTool := .none
  ldFlags := []
  makeArgs := []
  debug := false
  skipCleanup := false
  skipGccCheck := false
  settings := .none
  saveSettings := .none

/-- Why the arguments don't lead to a run: help is asked for, or they can't be understood. -/
inductive Stop where
  | help
  | refused (message : String)
  deriving DecidableEq, Repr

/-- An argument at first sight. -/
inductive Item where
  | plain (s : String)
  /-- The two hyphens after which there are no more options. -/
  | hyphens
  /-- An option with what is joined to it. -/
  | option (spec : Spec) (flag : String) (attached : Option String)
  | unknown (s : String)
  deriving DecidableEq, Repr

def Item.text : Item → String
  | .plain s => s
  | .hyphens => "--"
  | .option _ flag _ => flag
  | .unknown s => s

def isDigits (cs : List Char) : Bool := cs.all fun c => (Text.digit? c).isSome

/-- Whether an argument is a number below zero. -/
def isNegative (s : String) : Bool :=
  match s.toList with
  | '-' :: cs =>
    let cs := if cs.getLast? = some '\n' then cs.dropLast else cs
    match Text.cut? '.' cs with
    | some (whole, part) => isDigits whole && isDigits part && !part.isEmpty
    | none => isDigits cs && !cs.isEmpty
  | _ => false

/-- An argument at its first `=`. -/
def splitValue (s : String) : String × Option String :=
  match Text.cut? '=' s.toList with
  | some (flag, value) => (String.ofList flag, some (String.ofList value))
  | none => (s, none)

/-- The options that an argument may be short for. -/
def candidates (s : String) : List (Spec × String × Option String) :=
  match s.toList with
  | '-' :: '-' :: _ =>
    let (start, value) := splitValue s
    (flagTable.filter fun p => Text.starts start p.1).map fun p => (p.2, p.1, value)
  | '-' :: c :: cs =>
    flagTable.filterMap fun p =>
      if p.1 = String.ofList ['-', c] then some (p.2, p.1, some (String.ofList cs))
      else if Text.starts s p.1 then some (p.2, p.1, none)
      else none
  | _ => []

/-- What an argument is that begins with a hyphen and is no spelling of an option. -/
def guess (s : String) : Except Stop Item :=
  match candidates s with
  | [(spec, flag, value)] => .ok (.option spec flag value)
  | [] =>
    if isNegative s || s.toList.contains ' ' then .ok (.plain s) else .ok (.unknown s)
  | cs => .error (.refused ("ambiguous option: " ++ s ++ " could match " ++
      ", ".intercalate (cs.map fun c => c.2.1)))

def classify (s : String) : Except Stop Item :=
  if !Text.starts "-" s || s = "-" then .ok (.plain s)
  else match flagTable.lookup s with
    | some spec => .ok (.option spec s none)
    | none => match splitValue s with
      | (flag, some value) => match flagTable.lookup flag with
        | some spec => .ok (.option spec flag (some value))
        | none => guess s
      | _ => guess s

def items : List String → Except Stop (List Item)
  | [] => .ok []
  | s :: ss =>
    if s = "--" then .ok (.hyphens :: ss.map .plain)
    else do
      let i ← classify s
      return i :: (← items ss)

def complain {α} (s : Spec) (message : String) : Except Stop α :=
  .error (.refused ("argument " ++ s.title ++ ": " ++ message))

def refuseBoth {α} (s other : Key) : Except Stop α :=
  let title (k : Key) : String := ((specs.find? (·.key = k)).map Spec.title).getD ""
  .error (.refused ("argument " ++ title s ++ ": not allowed with argument " ++ title other))

/-- The number of jobs that is given, or none if none at all is. -/
def jobsOf (s : Spec) : Option String → Except Stop (Option Int)
  | none => .ok none
  | some value => match Text.integer? value with
    | some n => .ok (some n)
    | none => complain s ("invalid int value: " ++ Text.quoted value)

/-- Takes an option into account, with its value if it has one. -/
def take (a : Arguments) (s : Spec) (value : Option String) : Except Stop Arguments :=
  let text := some (value.getD "")
  match s.key with
  | .help => .error .help
  | .sourcedir =>
    if a.targetVersion.isSome then refuseBoth .sourcedir .targetVersion
    else .ok { a with sourcedir := text }
  | .targetVersion =>
    if a.sourcedir.isSome then refuseBoth .targetVersion .sourcedir
    else .ok { a with targetVersion := text }
  | .config => .ok { a with config := text }
  | .vmlinux => .ok { a with vmlinux := text }
  | .jobs => do return { a with jobs := ← jobsOf s value }
  | .target => .ok { a with targets := a.targets ++ [value] }
  | .name => .ok { a with name := text }
  | .output => .ok { a with output := text }
  | .ootModule => .ok { a with ootModule := text }
  | .cacheDir => .ok { a with cacheDir := text }
  | .fetchCommand => .ok { a with fetchCommand := text }
  | .diffCompiler => .ok { a with diffCompiler := text }
  | .moduleTool => .ok { a with moduleTool := text }
  | .ldFlag => .ok { a with ldFlags := a.ldFlags ++ [value] }
  | .makeArg => .ok { a with makeArgs := a.makeArgs ++ [value] }
  | .debug => .ok { a with debug := true }
  | .skipCleanup => .ok { a with skipCleanup := true }
  | .skipGccCheck => .ok { a with skipGccCheck := true }
  | .settings => .ok { a with settings := text }
  | .saveSettings => .ok { a with saveSettings := text }

/-- An option with its value, if it takes one and is given one. -/
abbrev Given := Spec × Option String

/-- What one argument gives: options, and one that still waits for its value. -/
structure Found where
  given : List Given
  waiting : Option Spec
  deriving DecidableEq, Repr

/-- An option that nothing is joined to. -/
def Found.alone (s : Spec) : Found :=
  if s.takesValue then ⟨[], some s⟩ else ⟨[(s, none)], none⟩

def Found.cons (s : Spec) (f : Found) : Found := { f with given := (s, none) :: f.given }

def ignored {α} (s : Spec) (text : List Char) : Except Stop α :=
  complain s ("ignored explicit argument " ++ Text.quoted (String.ofList text))

/-- A value that is joined to an option; two hyphens are none. -/
def joinedValue (text : List Char) : Option String :=
  if text = ['-', '-'] then none else some (String.ofList text)

/-- An option and the text behind it: its value, or else more options. -/
def joined (s : Spec) (text : List Char) : Except Stop Found :=
  if s.takesValue then .ok ⟨[(s, joinedValue text)], none⟩
  else match text with
    | [] => ignored s []
    | c :: cs => match flagTable.lookup (String.ofList ['-', c]) with
      | none => ignored s (c :: cs)
      | some next =>
        Found.cons s <$> if cs = [] then .ok (.alone next) else joined next cs
termination_by text.length

def isLong (flag : String) : Bool := Text.starts "--" flag

/-- The options that one argument gives. -/
def givens (s : Spec) (flag : String) : Option String → Except Stop Found
  | none => .ok (.alone s)
  | some v => if isLong flag && !s.takesValue then ignored s v.toList else joined s v.toList

def takeAll (a : Arguments) : List Given → Except Stop Arguments
  | [] => .ok a
  | (s, v) :: gs => do takeAll (← take a s v) gs

/-- Where the arguments are taken to: the patches only once, all that is left over at the end. -/
structure Reading where
  arguments : Arguments
  patchesRead : Bool
  extras : List String
  deriving DecidableEq, Repr

/-- A row of arguments that are no options. -/
def takeRow (r : Reading) (row : List Item) : Reading :=
  if row.isEmpty then r
  else if r.patchesRead then { r with extras := r.extras ++ row.map Item.text }
  else
    let words := (row.map Item.text).erase "--"
    { r with arguments := { r.arguments with patches := words }, patchesRead := true }

/-- Options of one argument, the last of which waits for its value. -/
structure Waiting where
  before : List Given
  spec : Spec
  deriving DecidableEq, Repr

/-- Reads the arguments on; `row` is the current row of arguments that are no options. -/
def read (r : Reading) (row : List Item) (wait : Option Waiting) :
    List Item → Except Stop Reading
  | [] => match wait with
    | some w => complain w.spec "expected one argument"
    | none => .ok (takeRow r row)
  | i :: is => match wait, i with
    | some w, .plain v => do
      let a ← takeAll r.arguments (w.before ++ [(w.spec, some v)])
      read { r with arguments := a } [] none is
    | some w, _ => complain w.spec "expected one argument"
    | none, .option s flag attached => do
      let r := takeRow r row
      let f ← givens s flag attached
      match f.waiting with
      | some spec => read r [] (some ⟨f.given, spec⟩) is
      | none => read { r with arguments := ← takeAll r.arguments f.given } [] none is
    | none, .unknown s =>
      let r := takeRow r row
      read { r with extras := r.extras ++ [s] } [] none is
    | none, i => read r (row ++ [i]) none is

/-- Takes the arguments apart. -/
def parse (argv : List String) : Except Stop Arguments := do
  let r ← read ⟨.none, false, []⟩ [] none (← items argv)
  if r.extras.isEmpty then return r.arguments
  throw (.refused ("unrecognized arguments: " ++ " ".intercalate r.extras))

end Hotpatch.CommandLine
