import Hotpatch.CommandLine
import Hotpatch.Host.Script

/-!
The program, as a rehearsal: it answers the command line on a file tree that it holds in memory. The
tree is read from the standard input, a JSON object from paths to texts. Every tool is found and,
when it is started, does nothing and succeeds.
-/

namespace Hotpatch.Rehearsal

def cwd : Place := ["work"]

def host : Host where
  cwd
  home := "/home"
  machine := "x86_64"
  cpus := none
  environment := [("HOME", "/home"), ("PATH", "/usr/bin:/bin")]
  hasTool := fun _ => true
  react := Script.react [] cwd

def planted : String × Json → Option (String × Script.Planted)
  | (path, .str text) => some (path, .file (Text.encode text) none)
  | _ => none

def disk (input : String) : Disk :=
  let empty : Disk := ⟨[(cwd, .dir)], 0⟩
  match Json.parse? input with
  | some (.obj files) => Script.plantAll cwd empty (files.filterMap planted)
  | _ => empty

def site (input : String) : Site := ⟨disk input, [], [], [], [], Series.empty⟩

/-- The exit status of a run that did not end by itself. -/
def broken : UInt32 := 1

end Hotpatch.Rehearsal

open Hotpatch in
def main (args : List String) : IO UInt32 := do
  match CommandLine.parse args with
  | .error .help =>
    IO.print CommandLine.help
    return 0
  | .error (.refused message) =>
    IO.eprint (CommandLine.refusal message)
    return 2
  | .ok a =>
    let input ← (← IO.getStdin).getLine
    let (ending, left) := (CommandLine.main a).run Rehearsal.host (Rehearsal.site input)
    left.console.reverse.forM fun line => IO.eprintln line
    match ending with
    | .ok e =>
      IO.print e.output
      return UInt32.ofNat e.status.toNat
    | .error _ => return Rehearsal.broken
