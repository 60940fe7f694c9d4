import Hotpatch.Host
import Hotpatch.Text.Blank
import Hotpatch.Text.Lines

/-!
Applying a patch series to its tree and taking it out again. Every patch is tried before it is
applied; when one doesn't go in, those before it come out in reverse order. Main definitions:
`Series.apply`, `Series.revertAll`, `Series.during`.
-/

namespace Hotpatch.Series

def channel : String := "livepatch_build.patch.patch_transaction"

/-- What is done with a patch. -/
inductive Use where
  | trial | apply | revert
  deriving DecidableEq, Repr

def argv (patch : String) (trial reverse : Bool) : List String :=
  ["patch", "-p1", if reverse then "-R" else "-N"] ++ (if trial then ["--dry-run"] else []) ++
    ["-i", patch]

def Use.argv (patch : String) : Use → List String
  | .trial => Series.argv patch true false
  | .apply => Series.argv patch false false
  | .revert => Series.argv patch false true

def indicators : List String := [
  "failed", "rejected", "reversed (or previously applied)", "can't find file", "malformed patch"]

def isConflict (line : List Char) : Bool :=
  indicators.any fun i => Text.occurs i.toList (line.map Char.toLower)

/-- The lines of a patch tool's output that tell why a patch didn't go in. -/
def conflicts (output : String) : List String :=
  ((Text.pieces '\n' output.toList).filter isConflict).map fun l =>
    String.ofList (Text.strip Text.isBlank l)

/-- A series that isn't applied, on a tree. -/
def ofPatches (cwd tree : String) (patches : List String) : Series :=
  ⟨clean tree, patches.map (absolute cwd), .pending, 0⟩

/-- The state of the series of a run. -/
def current : Act Series := return (← get).series

def put (s : Series) : Act Unit := modify fun site => { site with series := s }

/-- Runs the patch tool; gives the reason if it didn't succeed. -/
def usePatch (patch : String) (use : Use) : Act (Option String) := do
  let o ← Tool.start ⟨use.argv patch, some (← current).source, .captured⟩
  let output := o.output.getD "" ++ o.errors.getD ""
  (Text.lines output).forM (Log.debug channel)
  if o.status = 0 then return none
  match conflicts output with
  | c :: _ => return some c
  | [] => return some ("patch exited with status " ++ toString o.status)

/-- Tells git that files were written in place, where the tree is a repository. -/
def refreshIndex : Act Unit := do
  let tree := (← current).source
  if !(← Act.present (under tree ".git")) then return
  let o ← Tool.start ⟨["git", "update-index", "-q", "--refresh"], some tree, .captured⟩
  if o.status ≠ 0 then
    match o.output with
    | none => throw (.lacking "NoneType" "strip")
    | some out => Log.debug channel ("git update-index reported stale entries: " ++ Text.trim out)

/-- Takes out the given patches, the last one first, and counts down. Gives those that failed. -/
def revertEach : List String → Act (List String)
  | [] => return []
  | p :: ps => do
    let reason ← usePatch p .revert
    match reason with
    | none => Log.debug channel ("Reverted patch " ++ p)
    | some why => Log.error channel ("Failed to revert " ++ p ++ ": " ++ why)
    let s ← current
    put { s with count := s.count - 1 }
    let rest ← revertEach ps
    return if reason.isSome then p :: rest else rest

/-- The state after reverting: what an unexpected fault left in stays revertible. -/
def settle : Act Unit := do
  let s ← current
  put { s with phase := if 0 < s.count then .applied else .reverted }
  refreshIndex

/-- Fails for the first of the patches that couldn't be taken out. -/
def blame : List String → Act Unit
  | [] => return
  | p :: _ => Act.fail (.patch p "failed to revert patch")

/-- Takes out all patches that are in. Without any it does nothing. -/
def revertAll : Act Unit := do
  let s ← current
  if s.phase ≠ .applied then return
  put { s with phase := .reverting }
  let r ← Act.attempt (revertEach s.appliedPatches.reverse)
  settle
  blame (← Act.ofExcept r)

/-- Takes out what is in and fails for a patch. -/
def giveUp (patch reason : String) : Act Unit := do
  revertAll
  Act.fail (.patch patch reason)

/-- Puts in one patch that was tried. -/
def applyTried (patch : String) : Act Unit := do
  if let some why ← usePatch patch .apply then giveUp patch why
  let s ← current
  put { s with count := s.count + 1, phase := .applied }
  Log.debug channel ("Applied patch " ++ patch ++ " (" ++ toString (s.count + 1) ++ "/" ++
    toString s.patches.length ++ ")")

/-- Puts in one patch, after a trial. -/
def applyOne (patch : String) : Act Unit := do
  if !(← Act.isFile patch) then giveUp patch "patch file not found"
  if let some why ← usePatch patch .trial then giveUp patch why
  applyTried patch

def applyEach : List String → Act Unit
  | [] => return
  | p :: ps => do
    applyOne p
    applyEach ps

/-- Puts in the whole series. -/
def apply : Act Unit := do
  let s ← current
  if s.phase = .applied || s.phase = .reverting then
    Act.fail (.patch (s.patches.headD "<none>") ("transaction is already " ++ s.phase.name))
  applyEach s.patches
  put { (← current) with phase := .applied }

/-- Takes out the series after `cause` ended a block; that the patches don't come out is only noted,
any other fault takes the place of `cause`. -/
def revertAfter {α} (cause : Fault) : Act α := do
  match ← Act.attempt revertAll with
  | .error (.failure (.patch p d)) =>
    Log.error channel ("Revert after failure also failed: " ++ (Failure.patch p d).message)
  | .error e => throw e
  | .ok _ => pure ()
  throw cause

/-- Runs an action while the series is applied. -/
def during {α} (body : Act α) : Act α := do
  apply
  match ← Act.attempt body with
  | .error e => revertAfter e
  | .ok a =>
    revertAll
    return a

end Hotpatch.Series
