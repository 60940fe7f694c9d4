import Hotpatch.Json.Demand
import Hotpatch.Workspace

/-!
The settings of a run. Each has a name, and a value that may be of any make: a value has to be of
the right one only where it is used. What isn't given is taken from the machine or from the source
tree. Main definitions: `Settings.complete`, `Settings.useSource`, `Settings.validate`.
-/

namespace Hotpatch

namespace Settings

inductive Field where
  | sourceDir | patches | configFile | vmlinux | outputDir | name | arch
  /-- How many jobs a build runs at once; zero stands for the number of processors. -/
  | jobs
  | targets | cacheDir | targetVersion | ootModule | extraLinkFlags | extraMakeArgs | diffCompiler
  | moduleTool | debug | skipCleanup | skipGccCheck | fetchCommand
  deriving DecidableEq, Repr

namespace Field

/-- All settings in the order in which they are written. -/
def all : List Field := [
  .sourceDir, .patches, .configFile, .vmlinux, .outputDir, .name, .arch, .jobs, .targets, .cacheDir,
  .targetVersion, .ootModule, .extraLinkFlags, .extraMakeArgs, .diffCompiler, .moduleTool, .debug,
  .skipCleanup, .skipGccCheck, .fetchCommand]

def title : Field → String
  | .sourceDir => "source_dir"
  | .patches => "patches"
  | .configFile => "config_file"
  | .vmlinux => "vmlinux"
  | .outputDir => "output_dir"
  | .name => "name"
  | .arch => "arch"
  | .jobs => "jobs"
  | .targets => "targets"
  | .cacheDir => "cache_dir"
  | .targetVersion => "target_version"
  | .ootModule => "oot_module"
  | .extraLinkFlags => "extra_link_flags"
  | .extraMakeArgs => "extra_make_args"
  | .diffCompiler => "diff_compiler"
  | .moduleTool => "module_tool"
  | .debug => "debug"
  | .skipCleanup => "skip_cleanup"
  | .skipGccCheck => "skip_gcc_check"
  | .fetchCommand => "fetch_command"

def ofTitle? (title : String) : Option Field := all.find? (·.title = title)

/-- The value of a setting that isn't given. -/
def standard : Field → Json
  | .outputDir => .str "."
  | .jobs => .int 0
  | .targets => Json.ofTexts ["vmlinux", "modules"]
  | .cacheDir => .str "~/.livepatch-build"
  | .diffCompiler => .str "create-diff-object"
  | .moduleTool => .str "create-klp-module"
  | .debug | .skipCleanup | .skipGccCheck => .bool false
  | .patches | .extraLinkFlags | .extraMakeArgs | .fetchCommand => .arr []
  | .sourceDir | .configFile | .vmlinux | .name | .arch | .targetVersion | .ootModule => .null

/-- The make of value that a setting is meant to have. -/
inductive Make where
  | text | optionalText | texts | integer | truth
  deriving DecidableEq, Repr

def make : Field → Make
  | .outputDir | .cacheDir | .diffCompiler | .moduleTool => .text
  | .sourceDir | .configFile | .vmlinux | .name | .arch | .targetVersion | .ootModule =>
    .optionalText
  | .patches | .targets | .extraLinkFlags | .extraMakeArgs | .fetchCommand => .texts
  | .jobs => .integer
  | .debug | .skipCleanup | .skipGccCheck => .truth

/-- Whether a value is of a make. -/
def Make.accepts : Make → Json → Bool
  | .text, .str _ | .optionalText, .str _ | .optionalText, .null => true
  | .texts, .arr js => (Json.allTexts js).toOption.isSome
  | .integer, .int _ | .truth, .bool _ => true
  | _, _ => false

end Field

end Settings

structure Settings where
  value : Settings.Field → Json

namespace Settings

/-- The settings of a run for which nothing is given. -/
def blank : Settings := ⟨Field.standard⟩

/-- Whether every setting has a value of the make it is meant to have. -/
def isProper (s : Settings) : Bool := Field.all.all fun f => f.make.accepts (s.value f)

def put (s : Settings) (f : Field) (j : Json) : Settings :=
  ⟨fun g => if g = f then j else s.value g⟩

/-- Gives a setting a value unless it has one. -/
def fill (s : Settings) (f : Field) (j : Json) : Settings :=
  if (s.value f).isNull then s.put f j else s

def isGiven (s : Settings) (f : Field) : Bool := (s.value f).isTrue

def text (s : Settings) (f : Field) : Except Fault String := (s.value f).text

/-- Makes sure that a setting has a value: a file in the source tree, which then has to be a
text. -/
def fillFrom (s : Settings) (f : Field) (tree : Json) (file : String) : Except Fault Settings :=
  if (s.value f).isNull then do return s.put f (.str (under (← tree.text) file)) else .ok s

/-- Points at a source tree; configuration and kernel image are looked for in it unless given. -/
def useSource (s : Settings) (tree : Json) : Except Fault Settings := do
  let s := s.put .sourceDir (.str tree.shown)
  (← s.fillFrom .configFile tree ".config").fillFrom .vmlinux tree "vmlinux"

/-- Fills in what the machine and the source tree tell. -/
def complete (h : Host) (s : Settings) : Except Fault Settings :=
  let s := s.fill .arch (.str h.machine)
  let s := if (s.value .jobs).isZero then s.put .jobs (.int (h.cpus.getD 1)) else s
  let tree := s.value .sourceDir
  if tree.isNull then .ok s else s.useSource tree

/-- The settings that some members give on a machine; they may not have other names. -/
def ofMembers (h : Host) (ms : List (String × Json)) : Except Fault Settings := do
  let given ← ms.mapM fun m =>
    match Field.ofTitle? m.1 with
    | some f => .ok (f, m.2)
    | none => .error .illTyped
  complete h (given.foldl (fun s g => s.put g.1 g.2) blank)

def members (s : Settings) : List (String × Json) := Field.all.map fun f => (f.title, s.value f)

def toJson (s : Settings) : Json := .obj s.members

/-- Whether all settings have equal values. -/
def same (s t : Settings) : Bool := Field.all.all fun f => (s.value f).same (t.value f)

def refuse {α} (message : String) : Act α := Act.fail (.configuration message)

/-- Refuses a file that is missing. -/
def needFile (what : String) (path : Json) : Act Unit := do
  if !(← Act.isFile (clean (← Act.ofExcept path.text))) then
    refuse (what ++ " '" ++ path.shown ++ "' not found")

/-- Refuses a missing directory. -/
def needDirectory (what : String) (path : Json) : Act Unit := do
  if !(← Act.isDir (clean (← Act.ofExcept path.text))) then
    refuse (what ++ " '" ++ path.shown ++ "' not found")

/-- Refuses less than one job. -/
def needJobs (jobs : Json) : Act Unit := do
  match jobs.isBelowOne? with
  | some below => if below then refuse ("invalid job count: " ++ jobs.shown)
  | none => throw .illTyped

/-- Checks that everything needed is given and there. -/
def validate (s : Settings) : Act Unit := do
  if !s.isGiven .patches then refuse "no patch file(s) specified"
  if (s.value .sourceDir).isNull then
    refuse "no kernel source directory and no target version given"
  (← Act.ofExcept (s.value .patches).items).forM (needFile "patch file")
  needDirectory "source directory" (s.value .sourceDir)
  needFile "vmlinux" (s.value .vmlinux)
  needFile "config file" (s.value .configFile)
  needJobs (s.value .jobs)
  if s.isGiven .ootModule then needFile "out-of-tree module" (s.value .ootModule)

/-- The cache directory with the home directory put in. -/
def cachePath (s : Settings) : Act String := do
  Act.ofExcept (expandHome (← read).home (← Act.ofExcept (s.text .cacheDir)))

end Settings

end Hotpatch
