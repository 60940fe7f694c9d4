import Hotpatch.CommandLine.Options
import Hotpatch.CommandLine.Usage
import Hotpatch.Pipeline

/-!
The command line: from arguments to settings and a run. Settings come from a settings file, if one
is named, and the options go over them. Main definitions: `CommandLine.settings`,
`CommandLine.main`.
-/

namespace Hotpatch.CommandLine

/-- A text that is given and not empty. -/
def given (o : Option String) : Option String := o.filter (· ≠ "")

/-- Gives a setting a text, if there is one. -/
def overText (o : Option String) (f : Settings.Field) (s : Settings) : Settings :=
  match given o with
  | some v => s.put f (.str v)
  | none => s

/-- A value of a list; an empty list stands for one that is none at all. -/
def item : Option String → Json
  | some v => .str v
  | none => .arr []

/-- Gives a setting some values, if there are any. -/
def overList (vs : List (Option String)) (f : Settings.Field) (s : Settings) : Settings :=
  if vs.isEmpty then s else s.put f (.arr (vs.map item))

/-- Sets one of the settings that say yes or no. -/
def overFlag (b : Bool) (f : Settings.Field) (s : Settings) : Settings :=
  if b then s.put f (.bool true) else s

/-- A version to fetch takes the place of a source tree. -/
def overVersion (a : Arguments) (s : Settings) : Settings :=
  match given a.targetVersion with
  | some v => (s.put .targetVersion (.str v)).put .sourceDir .null
  | none => s

/-- A source tree takes the place of a version to fetch. -/
def overSource (a : Arguments) (s : Settings) : Except Fault Settings :=
  match given a.sourcedir with
  | some tree => (s.put .targetVersion .null).useSource (.str tree)
  | none => .ok s

/-- A number of jobs has to be one. -/
def overJobs (a : Arguments) (s : Settings) : Except Fault Settings :=
  match a.jobs with
  | some n => .ok (if 0 < n then s.put .jobs (.int n) else s)
  | none => .error .illTyped

def overFetch (a : Arguments) (s : Settings) : Settings :=
  match given a.fetchCommand with
  | some c => s.put .fetchCommand (Json.ofTexts (Text.words c))
  | none => s

/-- The options laid over settings. -/
def overAll (a : Arguments) (s : Settings) : Except Fault Settings := do
  let s := overVersion a (overList (a.patches.map some) .patches s)
  let s ← overSource a (overText a.vmlinux .vmlinux (overText a.config .configFile s))
  let s := overList a.targets .targets (← overJobs a s)
  let s := overText a.ootModule .ootModule (overText a.output .outputDir (overText a.name .name s))
  let s := overFetch a (overText a.cacheDir .cacheDir s)
  let s := overText a.moduleTool .moduleTool (overText a.diffCompiler .diffCompiler s)
  let s := overList a.makeArgs .extraMakeArgs (overList a.ldFlags .extraLinkFlags s)
  let s := overFlag a.skipCleanup .skipCleanup (overFlag a.debug .debug s)
  return overFlag a.skipGccCheck .skipGccCheck s

def settings (a : Arguments) : Act Settings := do
  let s ← match given a.settings with
    | some file => Settings.load file
    | none => Act.ofExcept (Settings.complete (← Act.host) .blank)
  Act.ofExcept (overAll a s)

/-- The exit status of the program and what it printed. -/
structure Exit where
  status : Int
  output : String
  deriving DecidableEq, Repr

/-- Shows a line on the console, whatever its level. -/
def tell (line : String) : Act Unit := modify fun s => { s with console := line :: s.console }

/-- Ends the program after a run, successful or not. -/
def conclude (s : Settings) : Except Fault String → Act Exit
  | .ok output => return ⟨0, "Patch module: " ++ output ++ "\n"⟩
  | .error .interrupted => do
    tell "\nBuild interrupted by user"
    return ⟨130, ""⟩
  | .error (.failure f) => do
    tell ("ERROR: " ++ f.message ++ ". Check " ++ (← Pipeline.logFile s) ++ " for more details.")
    return ⟨1, ""⟩
  | .error e => throw e

/-- Does what the settings ask for. -/
def perform (a : Arguments) (s : Settings) : Act Exit := do
  if let some file := given a.saveSettings then
    s.save file
    return ⟨0, "Settings saved to: " ++ file ++ "\n"⟩
  if !s.isGiven .patches then return ⟨1, help⟩
  let (p, r) ← Pipeline.run s
  conclude p.settings r

/-- The program on arguments that could be taken apart. -/
def main (a : Arguments) : Act Exit := do
  match ← Act.attempt (settings a) with
  | .error (.failure f) =>
    tell ("ERROR: " ++ f.message ++ ".")
    return ⟨1, ""⟩
  | .error e => throw e
  | .ok s => perform a s

end Hotpatch.CommandLine
