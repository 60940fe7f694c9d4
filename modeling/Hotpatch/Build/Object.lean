import Hotpatch.Json.Value
import Hotpatch.Kbuild.Owner

/-! Objects that differ between two builds, and what is found out about them. -/

namespace Hotpatch

/-- What becomes of an object when its two versions are compared. -/
inductive Verdict where
  | noChange | changed | new | skipped | error
  deriving DecidableEq, Repr

namespace Verdict

def all : List Verdict := [.noChange, .changed, .new, .skipped, .error]

def name : Verdict → String
  | .noChange => "no_change"
  | .changed => "changed"
  | .new => "new"
  | .skipped => "skipped"
  | .error => "error"

/-- The verdict that a value names. -/
def ofValue (j : Json) : Except Fault Verdict :=
  match all.find? fun v => j.same (.str v.name) with
  | some v => .ok v
  | none => .error (.invalid (j.innerText ++ " is not a valid DiffOutcome"))

/-- Whether an object goes into the module. -/
def isIncluded (v : Verdict) : Bool := v = .changed || v = .new

end Verdict

structure ChangedObject where
  /-- The path in the source tree. -/
  path : String
  /-- Whether only the patched build has it. -/
  isNew : Bool
  owner : Option Kbuild.Binary
  verdict : Option Verdict
  deriving DecidableEq, Repr

namespace ChangedObject

def fresh (path : String) (isNew : Bool) : ChangedObject := ⟨path, isNew, none, none⟩

/-- Settles what becomes of an object; this can be done once. -/
def settle (o : ChangedObject) (v : Verdict) : Except Fault ChangedObject :=
  match o.verdict with
  | some w => .error (.invalid ("outcome of " ++ o.path ++ " already set to " ++ w.name))
  | none => .ok { o with verdict := some v }

end ChangedObject

end Hotpatch
