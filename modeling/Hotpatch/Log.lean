import Hotpatch.Disk

/-!
Log records and where they go. Every record is kept; a console shows those of its level and above
as bare messages, a log file takes all of them as lines that name time, source and level.
-/

namespace Hotpatch.Log

inductive Level where
  | debug | info | warning | error | critical
  deriving DecidableEq, Repr

def Level.name : Level → String
  | .debug => "DEBUG"
  | .info => "INFO"
  | .warning => "WARNING"
  | .error => "ERROR"
  | .critical => "CRITICAL"

def Level.rank : Level → Nat
  | .debug => 10
  | .info => 20
  | .warning => 30
  | .error => 40
  | .critical => 50

structure Record where
  source : String
  level : Level
  message : String
  deriving DecidableEq, Repr

/-- The source under which all others are, and the one setting up the log belongs to. -/
def root : String := "livepatch_build"

inductive Sink where
  /-- Standard error, from a level on. -/
  | console (level : Level)
  /-- A file, by the place where it was opened and its serial number. -/
  | file (place : Place) (serial : Nat)
  deriving DecidableEq, Repr

def Sink.isFile : Sink → Bool
  | .file .. => true
  | .console _ => false

def Sink.level : Sink → Level
  | .console l => l
  | .file .. => .debug

def Sink.format : Sink → String
  | .console _ => "%(message)s"
  | .file .. => "%(asctime)s - %(name)s - %(levelname)s - %(message)s"

/-- The time every line bears; no clock is read. -/
def stamp : String := "1970-01-01 00:00:00,000"

def Record.line (r : Record) : String :=
  stamp ++ " - " ++ r.source ++ " - " ++ r.level.name ++ " - " ++ r.message ++ "\n"

/-- Whether records of a source reach the sinks. -/
def isWithin (source : String) : Bool :=
  source = root || (root ++ ".").toList.isPrefixOf source.toList

/-- Whether a record is noted at all: those of sources that only begin alike are from a warning
on. -/
def Record.isNoted (r : Record) : Bool :=
  isWithin r.source ||
    (root.toList.isPrefixOf r.source.toList && Level.warning.rank ≤ r.level.rank)

end Hotpatch.Log
