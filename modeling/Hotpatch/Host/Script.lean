import Hotpatch.Host
import Hotpatch.Text.Lines

/-!
Tools that follow a script. Each program has a list of steps, and every start of it takes the next
one; a step changes the file tree and tells how the process goes. A program that has no step left
does nothing and succeeds.
-/

namespace Hotpatch.Script

/-- What is put into the file tree at a path. -/
inductive Planted where
  | dir
  /-- A file, written at the given time if there is one. -/
  | file (content : Bytes) (time : Option Int)
  deriving DecidableEq, Repr

structure Step where
  removes : List String
  writes : List (String × Planted)
  refusal : Option Refusal
  outcome : Outcome

def noFamily : Family := ⟨false, [], ⟨0, false, false, false⟩⟩

def Step.quiet : Step := ⟨[], [], none, ⟨0, some "", some "", none, noFamily⟩⟩

/-- Puts something into the tree, with the directories above it. -/
def plant (cwd : Place) (d : Disk) (path : String) : Planted → Disk
  | .dir => (d.makeDirs cwd path).1
  | .file c t =>
    let d := (d.makeDirs cwd (parent path)).1
    match d.writeAt cwd path c (t.getD d.clock) with
    | .ok d => d
    | .error _ => d

def plantAll (cwd : Place) (d : Disk) (ps : List (String × Planted)) : Disk :=
  ps.foldl (fun d p => plant cwd d p.1 p.2) d

def Step.change (s : Step) (cwd : Place) (d : Disk) : Disk :=
  plantAll cwd (s.removes.foldl (fun d p => d.clear cwd p) d) s.writes

/-- The text of a process with a line feed for every line end. -/
def readable (t : Option String) : Option String :=
  t.map fun s => String.ofList (Text.unify s.toList)

def Step.ending (s : Step) : Ending :=
  match s.refusal with
  | some r => .error r
  | none => .ok { s.outcome with
      output := readable s.outcome.output
      errors := readable s.outcome.errors }

abbrev Steps := List (String × List Step)

def isStartOf (program : String) : Event → Bool
  | .ran s _ => s.argv.headD "" = program
  | _ => false

/-- The step that the next start of a program takes. -/
def next (script : Steps) (past : List Event) (program : String) : Step :=
  (((script.lookup program).getD [])[past.countP (isStartOf program)]?).getD Step.quiet

/-- The behaviour of tools that follow a script. -/
def react (script : Steps) (cwd : Place) (past : List Event) (start : Start) (d : Disk) :
    Reaction :=
  let s := next script past (start.argv.headD "")
  ⟨s.change cwd d, s.ending⟩

end Hotpatch.Script
