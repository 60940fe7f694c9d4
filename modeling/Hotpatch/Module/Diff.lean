import Hotpatch.Build.Object
import Hotpatch.Command
import Hotpatch.Json.Demand
import Hotpatch.Layout

/-! Running the tool that compares an object before and after the patches. -/

namespace Hotpatch

structure Differ where
  tool : Json
  layout : Layout
  verbose : Bool

/-- What is compared, for whom, and where the differences go. -/
structure DiffRequest where
  original : String
  patched : String
  owner : Kbuild.Binary
  output : String
  symvers : String
  moduleName : String
  deriving DecidableEq, Repr

namespace Differ

def source : String := "livepatch_build.diff.diff_compiler"

def argv (t : Differ) (r : DiffRequest) : Except Fault (List String) := do
  return [← t.tool.text] ++ (if t.verbose then ["-d"] else []) ++
    [r.original, r.patched, r.owner.path, r.symvers, r.moduleName, r.output]

/-- The tool's exit status tells what it found. -/
def judge (t : Differ) (r : DiffRequest) (c : Command.Result) : Act Verdict := do
  if c.status = 0 then return .changed
  if c.status = 3 then return .noChange
  Log.error source <|
    if c.crashed then "SEGFAULT: " ++ t.tool.shown ++ " " ++ r.patched
    else t.tool.shown ++ " failed on " ++ r.patched ++ " with status " ++ toString c.status
  return .error

def diff (t : Differ) (r : DiffRequest) : Act Verdict := do
  Act.makeDirs (parent r.output)
  let environment ← Act.ofExcept t.layout.environment
  t.judge r (← Command.run (← Act.ofExcept (t.argv r)) none environment)

end Differ

end Hotpatch
