import Hotpatch.Failure
import Hotpatch.Log
import Hotpatch.Patch.Series

/-!
The machine a run takes place on. A `Host` is what stays as it is: the working directory, the
variables, and how the external tools behave, as a function of all that happened before. A `Site`
is what changes: the file tree, the events so far, the log and the patch series. An `Act` reads the
host, changes the site, and ends with a value or a fault; what it did to the site stays either way.
-/

namespace Hotpatch

/-- How a tool is started: with its output taken as a whole, or streamed line by line and with
variables laid over those of the host. -/
inductive Mode where
  | captured
  | streamed (environment : List (String × String))
  deriving DecidableEq, Repr

structure Start where
  argv : List String
  cwd : Option String
  mode : Mode
  deriving DecidableEq, Repr

/-- Why a start came to nothing. -/
inductive Refusal where
  | notFound | denied | timedOut | interrupted
  deriving DecidableEq, Repr

/-- What a refused start ends with; the program is the first of the arguments. -/
def Refusal.fault (argv : List String) : Refusal → Fault
  | .notFound => .disk (.failed .notFound (argv.headD ""))
  | .denied => .disk (.failed .denied (argv.headD ""))
  | .timedOut => .timedOut argv
  | .interrupted => .interrupted

/-- A process as the one who ends it finds it: gone when it is asked to terminate, gone when it is
killed, still alive after the wait. -/
structure Member where
  pid : Int
  goneAtTerminate : Bool
  goneAtKill : Bool
  alive : Bool
  deriving DecidableEq, Repr

/-- A started process with its descendants; a parent that is gone shows none. -/
structure Family where
  gone : Bool
  children : List Member
  parent : Member
  deriving DecidableEq, Repr

/-- How a process went: its status, its output and error output, and, when its output is streamed,
after how many lines the operator interrupts and what processes there are then. -/
structure Outcome where
  status : Int
  output : Option String
  errors : Option String
  interruptAfter : Option Nat
  family : Family
  deriving DecidableEq, Repr

abbrev Ending := Except Refusal Outcome

inductive Signal where
  | terminate | kill
  deriving DecidableEq, Repr

inductive Event where
  | ran (start : Start) (ending : Ending)
  | signalled (signal : Signal) (pid : Int)
  /-- Processes were waited for, so many milliseconds at most. -/
  | awaited (pids : List Int) (limit : Int)
  | closed (pid : Int)
  | cleaned (name : String)

structure Reaction where
  disk : Disk
  ending : Ending

structure Host where
  cwd : Place
  home : String
  machine : String
  /-- The number of processors, where it can be told. -/
  cpus : Option Int
  environment : List (String × String)
  hasTool : String → Bool
  /-- What a tool does when it is started: it depends on the events so far, newest first, and on
  the file tree, which it may change as it likes. -/
  react : List Event → Start → Disk → Reaction

structure Site where
  disk : Disk
  /-- Newest first. -/
  events : List Event
  /-- Newest first. -/
  records : List Log.Record
  sinks : List Log.Sink
  /-- What the console shows, newest line first. -/
  console : List String
  series : Series

abbrev Act := ReaderT Host (ExceptT Fault (StateM Site))

namespace Act

def run {α} (a : Act α) (h : Host) (s : Site) : Except Fault α × Site := a h s

/-- Runs an action to its end, whatever that is. -/
def attempt {α} (a : Act α) : Act (Except Fault α) := fun h s =>
  let r := a h s
  (.ok r.1, r.2)

def ofExcept {α} : Except Fault α → Act α
  | .ok a => pure a
  | .error e => throw e

def fail {α} (f : Failure) : Act α := throw (.failure f)

def host : Act Host := read

def disk : Act Disk := return (← get).disk

def setDisk (d : Disk) : Act Unit := modify fun s => { s with disk := d }

def path : Act String := return Place.text (← read).cwd

/-- A question to the file tree. -/
def ask {α} (q : Disk → Place → α) : Act α := return q (← disk) (← read).cwd

/-- A question to the file tree that may be refused. -/
def query {α} (q : Disk → Place → Except DiskError α) : Act α := do
  match q (← disk) (← read).cwd with
  | .ok a => return a
  | .error e => throw (.ofDisk e)

/-- A change of the file tree that may be refused. -/
def change (q : Disk → Place → Except DiskError Disk) : Act Unit := do
  setDisk (← query q)

/-- Makes a directory with all above it; what was made stays even if the rest is refused. -/
def makeDirs (path : String) : Act Unit := do
  let (d, refusal) := (← disk).makeDirs (← read).cwd path
  setDisk d
  match refusal with
  | some e => throw (.ofDisk e)
  | none => return

def present (path : String) : Act Bool := return (← query (·.look? · path)).isSome

def isFile (path : String) : Act Bool := do
  match ← query (·.look? · path) with
  | some (.file _) => return true
  | _ => return false

def isDir (path : String) : Act Bool := return (← query (·.look? · path)) = some .dir

/-- The text of a file, which has to be UTF-8; every line end becomes a line feed. -/
def readText (path : String) : Act String := do
  match Text.decode (← query (·.read · path)) with
  | .ok text => return String.ofList (Text.unify text.toList)
  | .error e => throw (.undecodable e)

def record (e : Event) : Act Unit := modify fun s => { s with events := e :: s.events }

end Act

namespace Log

/-- What a sink takes of a record. -/
def Sink.take (r : Record) (s : Site) : Sink → Site
  | .console l => if l.rank ≤ r.level.rank then { s with console := r.message :: s.console } else s
  | .file p n => { s with disk := s.disk.append p n (Text.encode r.line) }

def emit (r : Record) : Act Unit := modify fun s =>
  let s := { s with records := r :: s.records }
  if isWithin r.source then s.sinks.foldl (Sink.take r) s else s

def debug (source message : String) : Act Unit := emit ⟨source, .debug, message⟩
def info (source message : String) : Act Unit := emit ⟨source, .info, message⟩
def warning (source message : String) : Act Unit := emit ⟨source, .warning, message⟩
def error (source message : String) : Act Unit := emit ⟨source, .error, message⟩

/-- Sets up the log anew: a console and, where a file is given, a log file behind it. -/
def setup (file : Option String) (verbose : Bool) : Act Unit := do
  modify fun s => { s with sinks := [.console (if verbose then .debug else .info)] }
  match file with
  | none => return
  | some f =>
    if f = "" then return
    Act.makeDirs (parent f)
    let full := normalize (glue (← Act.path) f)
    let old ← Act.ask fun d w => (d.open? w full).toOption.map File.content
    Act.change (·.write · full (old.getD []))
    match (← Act.ask fun d w => d.find w full) with
    | .ok (p, .file n) => modify fun s => { s with sinks := s.sinks ++ [.file p n.serial] }
    | _ => return

/-- Lets go of the log files. -/
def closeFiles : Act Unit := modify fun s => { s with sinks := s.sinks.filter (!·.isFile) }

end Log

namespace Tool

/-- Starts a tool: it leaves the tree as it likes, and the start is kept with its ending. -/
def launch (start : Start) : Act Ending := fun h s =>
  let r := h.react s.events start s.disk
  (.ok r.ending, { s with disk := r.disk, events := .ran start r.ending :: s.events })

/-- Starts a tool and gives how it went. -/
def start (s : Start) : Act Outcome := do
  match ← launch s with
  | .ok o => return o
  | .error r => throw (r.fault s.argv)

end Tool

end Hotpatch
