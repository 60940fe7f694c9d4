import Hotpatch.Disk.Access

/-!
What can go wrong. A `Failure` is one of the build's own: it ends a run with one line of cause. A
`Fault` is anything that can end an action: a failure, a refusal of the file system, a process that
can't be started, an interrupt, or a value of the wrong make.
-/

namespace Hotpatch

inductive Failure where
  /-- A failure of no particular stage. -/
  | general (message : String)
  /-- Options are missing or don't go together. -/
  | configuration (message : String)
  /-- A kernel feature or tool is absent, or the kernel has an unsupported one. -/
  | prerequisite (message : String)
  /-- A source patch did not apply. -/
  | patch (file detail : String)
  | build (message : String)
  /-- The build crashed; a core file may have been kept. -/
  | segfault (stage : String) (core : Option String)
  | nothingChanged
  /-- The binary that links an object can't be told. -/
  | unresolved (object detail : String)
  /-- The debug information lacks the size of a record. -/
  | layout (struct : String)
  | diff (message : String) (errors : Int)
  /-- The module needs symbols that nothing provides. -/
  | symbols (names : List String)
  /-- Moving build products around failed. -/
  | staging (message : String)
  deriving DecidableEq, Repr

namespace Failure

/-- An unsatisfied set of symbols, each once and sorted. -/
def unsatisfied (names : List String) : Failure := .symbols names.eraseDups.mergeSort

def message : Failure → String
  | .general m | .configuration m | .prerequisite m | .build m | .staging m | .diff m _ => m
  | .patch file detail =>
    file ++ " file failed to apply" ++ if detail = "" then "" else ": " ++ detail
  | .segfault stage core =>
    match core with
    | some c =>
      if c = "" then noCore stage else "SEGFAULT during " ++ stage ++ ", core file at " ++ c
    | none => noCore stage
  | .nothingChanged => "no changed objects found"
  | .unresolved object detail => "unable to resolve owner of " ++ object ++ ": " ++ detail
  | .layout struct => "can't find special struct " ++ struct ++ " size"
  | .symbols names => "unsatisfied symbols: " ++ " ".intercalate names
where
  noCore (stage : String) : String :=
    "SEGFAULT during " ++ stage ++
      ", no core file found; run 'ulimit -c unlimited' and try to recreate"

end Failure

/-- Why an ELF file or its debug information can't be read. -/
inductive ImageFault where
  /-- The file breaks a rule of the format. -/
  | malformed
  /-- Something ends too early or has a value that can't be. -/
  | unreadable
  /-- A relocation can't be applied. -/
  | relocation
  /-- Content is compressed in an unknown way, or has another size than it tells. -/
  | compression
  /-- The debug information is of a version or kind that is not known, or lacks a base. -/
  | unsupported
  /-- An entry names a declaration or a form that is not there. -/
  | missing
  /-- A section that is needed is not there, or a size or a mark is none of those that can be. -/
  | unexpected
  /-- A base is no number. -/
  | mistyped
  /-- Compressed data is corrupt. -/
  | corrupt
  /-- The name of another file of debug information ends too early. -/
  | openName
  /-- What goes with the name of another file ends too early. -/
  | shortField
  /-- No file has a position like this. -/
  | outOfReach
  /-- A value is not one of those allowed. -/
  | invalid (message : String)
  /-- A number has more than 63 bits where it can't. -/
  | overflow
  /-- More memory is needed than there can be. -/
  | exhausted
  deriving DecidableEq, Repr

/-- Whether a fault is one of the file format itself. -/
def ImageFault.isFormat : ImageFault → Bool
  | .malformed | .unreadable | .relocation | .compression => true
  | _ => false

inductive Fault where
  | failure (f : Failure)
  | disk (e : DiskError)
  /-- A process, given by its arguments, did not end in time. -/
  | timedOut (argv : List String)
  /-- The operator interrupted the run. -/
  | interrupted
  /-- A value is not one of those allowed. -/
  | invalid (message : String)
  | illTyped
  /-- A name is looked up that is not there. -/
  | unknownName
  /-- A text file holds bytes that are no text. -/
  | undecodable (e : Text.Undecodable)
  | image (e : ImageFault)
  /-- A value has no part of a name; what kind of value it is, and the part. -/
  | lacking (kind part : String)
  /-- The home directory can't be told. -/
  | homeless
  /-- Something is nested too deeply. -/
  | tooDeep
  deriving DecidableEq, Repr

namespace Fault

/-- What a refusal of the file system ends an action with. -/
def ofDisk : DiskError → Fault
  | .failed .nullByte _ => .invalid Errno.nullByte.text
  | .tooDeep => .tooDeep
  | e => .disk e

/-- What an image that can't be read ends an action with. -/
def ofImage : ImageFault → Fault
  | .outOfReach => .disk (.broken .outOfRange)
  | .invalid m => .invalid m
  | f => .image f

/-- The text a message quotes for a fault. -/
def message : Fault → String
  | .failure f => f.message
  | .disk e => e.message
  | .timedOut argv => "Command '" ++ Text.quotedList argv ++ "' timed out after 30 seconds"
  | .invalid m => m
  | .undecodable e => e.message
  | .lacking kind part => Text.quoted kind ++ " object has no attribute " ++ Text.quoted part
  | .homeless => "Could not determine home directory."
  | .tooDeep => "maximum recursion depth exceeded"
  | _ => ""

/-- An interrupt passes every handler that is not made for it. -/
def isInterrupt : Fault → Bool
  | .interrupted => true
  | _ => false

end Fault

end Hotpatch
