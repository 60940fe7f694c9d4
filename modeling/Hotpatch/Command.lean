import Hotpatch.Host
import Hotpatch.Text.Lines

/-!
Running a tool with its output streamed into the log. When the operator interrupts, the whole
family of the process is asked to terminate, waited for, and what is left of it killed, before the
interrupt goes on; the output is closed in every case.
-/

namespace Hotpatch.Command

def source : String := "livepatch_build.utils.process"

structure Result where
  argv : List String
  status : Int
  output : List String
  deriving DecidableEq, Repr

def Result.succeeded (r : Result) : Bool := r.status = 0

/-- A crash, as a shell or as the system reports it. -/
def Result.crashed (r : Result) : Bool := r.status = 139 || r.status = -11

/-- The number every started process has. -/
def pid : Int := 4321

/-- How long a process may take to terminate, in milliseconds. -/
def patience : Int := 10000

def goneAt : Signal → Member → Bool
  | .terminate, m => m.goneAtTerminate
  | .kill, m => m.goneAtKill

/-- Sends a signal to a process; tells whether the process was still there. -/
def send (signal : Signal) (m : Member) : Act Bool := do
  Act.record (.signalled signal m.pid)
  return !goneAt signal m

/-- Sends a signal to each of the processes in turn; one that is gone doesn't stop the others. -/
def signalAll (signal : Signal) : List Member → Act Unit
  | [] => return
  | m :: ms => do
    let _ ← send signal m
    signalAll signal ms

/-- Terminates a process and all its descendants. -/
def terminateFamily (f : Family) (limit : Int) : Act Unit := do
  if f.gone then return
  let all := f.children ++ [f.parent]
  signalAll .terminate all
  Act.record (.awaited (all.map Member.pid) limit)
  signalAll .kill (all.filter Member.alive)

def linesOf (o : Outcome) : List String :=
  (Text.feedLines (o.output.getD "").toList).map String.ofList

/-- Reads the lines of a process into the log. -/
def follow (argv : List String) (o : Outcome) : Act Result := do
  let ls := linesOf o
  match o.interruptAfter with
  | none =>
    ls.forM (Log.debug source)
    return ⟨argv, o.status, ls⟩
  | some n =>
    (ls.take n).forM (Log.debug source)
    Log.warning source ("Interrupted, terminating: " ++ " ".intercalate argv)
    terminateFamily o.family patience
    throw .interrupted

/-- Runs a tool, optionally in a directory and with variables of its own. -/
def run (argv : List String) (cwd : Option String) (environment : List (String × String)) :
    Act Result := do
  Log.debug source ("Running command: " ++ " ".intercalate argv)
  if let some d := cwd then
    if d ≠ "" then Log.debug source ("Working directory: " ++ d)
  let o ← Tool.start ⟨argv, cwd, .streamed environment⟩
  let r ← Act.attempt (follow argv o)
  Act.record (.closed pid)
  Act.ofExcept r

end Hotpatch.Command
