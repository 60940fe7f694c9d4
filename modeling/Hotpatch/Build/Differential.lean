import Hotpatch.Build.Diagnostic
import Hotpatch.Build.Fingerprint
import Hotpatch.Build.Object
import Hotpatch.Kbuild.Make
import Hotpatch.Patch.Application
import Hotpatch.Staging

/-!
Building a kernel twice, without and with the patches, and collecting the objects that differ in
both versions. The tree is built a third time after the patches are out, which restores the original
objects. Main definitions: `Differential.baseline`, `Differential.instrumented`.
-/

namespace Hotpatch

structure Differential where
  make : Kbuild.Make
  tree : String
  /-- Where the objects are collected. -/
  work : String
  targets : Json
  jobs : Json
  extra : Json

structure Harvest where
  /-- Sorted by path. -/
  objects : List ChangedObject
  /-- The symbols that the patched build left undefined, sorted. -/
  undefined : List String
  original : String
  patched : String
  deriving DecidableEq, Repr

namespace Differential

def source : String := "livepatch_build.build.kernel_builder"

def original (b : Differential) : String := under b.work "orig"

def patched (b : Differential) : String := under b.work "patched"

/-- The variables of a build: every function gets a section of its own; in the patched build,
symbols that can't be resolved are only reported. -/
def environment (instrumented : Bool) : List (String × String) :=
  ("KCFLAGS", "-ffunction-sections -fdata-sections") ::
    if instrumented then
      [("KBUILD_MODPOST_WARN", "1"), ("LDFLAGS_vmlinux", "--warn-unresolved-symbols")]
    else []

def isCoreName (name : String) : Bool := name = "core" || Text.starts "core." name

/-- The names of the core files in a directory with the times they were written. -/
def cores (d : Disk) (place : Place) : List (String × Int) :=
  ((d.names place).filter isCoreName).filterMap fun n =>
    (d.file? (place ++ [n])).map fun f => (n, f.time)

/-- The first of the latest ones. -/
def latest : List (String × Int) → Option (String × Int)
  | [] => none
  | c :: cs => match latest cs with
    | none => some c
    | some e => if c.2 < e.2 then some e else some c

/-- Moves the latest core file of the tree to where it stays. -/
def preserveCore (b : Differential) : Act (Option String) := do
  let tree := clean b.tree
  let newest ← Act.ask fun d w =>
    match d.find w tree with
    | .ok (place, .dir) => latest (cores d place)
    | _ => none
  match newest with
  | none => return none
  | some (name, _) =>
    let _ ← Staging.ensureDirectory b.work
    let target := under b.work name
    Act.change (·.move · (under tree name) target)
    return some target

/-- One build; it fails if make fails or crashes. -/
def pass (b : Differential) (stage : String) (instrumented : Bool) : Act Command.Result := do
  let r ← b.make.build b.tree b.targets b.jobs (environment instrumented) b.extra
  if r.crashed then Act.fail (.segfault stage (← b.preserveCore))
  if r.succeeded then return r
  Act.fail (.build (stage ++ " failed with status " ++ toString r.status))

/-- Builds the tree without the patches and takes its fingerprints. -/
def baseline (b : Differential) : Act Fingerprints := do
  Log.info source "Building original source"
  let _ ← b.pass "original build" false
  Fingerprints.snapshot b.tree

def stageAll (b : Differential) (target : String) : List String → Act Unit
  | [] => return
  | p :: ps => do
    let _ ← Staging.stage b.tree p target
    b.stageAll target ps

/-- Builds the patched tree and collects what differs from the first build. -/
def buildPatched (b : Differential) (before : Fingerprints) :
    Act (List String × Fingerprints.Comparison) := do
  Log.info source "Building patched source"
  let r ← b.pass "patched build" true
  let undefined := Diagnostic.undefined r.output
  let c := Fingerprints.compare before (← Fingerprints.snapshot b.tree)
  if c.changed.isEmpty && c.new.isEmpty then Act.fail .nothingChanged
  b.stageAll b.patched (c.changed ++ c.new)
  return (undefined, c)

def stageOriginals (b : Differential) (before restored : Fingerprints) : List String → Act Unit
  | [] => return
  | p :: ps => do
    if restored.lookup p ≠ before.lookup p then
      Log.warning source (p ++ " differs from the original build after restoring it")
    let _ ← Staging.stage b.tree p b.original
    b.stageOriginals before restored ps

/-- Builds the tree again without the patches and collects the originals of what changed. -/
def restore (b : Differential) (before : Fingerprints) (changed : List String) : Act Unit := do
  if changed.isEmpty then return
  Log.info source "Restoring original objects"
  let _ ← b.pass "original rebuild" false
  let restored ← Fingerprints.snapshot b.tree
  b.stageOriginals before restored changed

def announce (undefined : List String) (c : Fingerprints.Comparison) : Act Unit := do
  c.changed.forM fun p => Log.info source ("Changed object: " ++ p)
  c.new.forM fun p => Log.info source ("New object: " ++ p)
  if !undefined.isEmpty then
    Log.debug source ("Undefined symbols in patched build: " ++ " ".intercalate undefined)

def objectsOf (c : Fingerprints.Comparison) : List ChangedObject :=
  (c.changed.map (ChangedObject.fresh · false) ++ c.new.map (ChangedObject.fresh · true)).mergeSort
    fun a b => a.path ≤ b.path

/-- Builds the tree with the patches and collects the objects that differ from the first build, in
both versions. -/
def instrumented (b : Differential) (before : Option Fingerprints) : Act Harvest := do
  match before with
  | none => Act.fail (.build "patched build requested before the original build")
  | some before =>
    let _ ← Staging.ensureDirectory b.original
    let _ ← Staging.ensureDirectory b.patched
    let (undefined, c) ← Series.during (b.buildPatched before)
    b.restore before c.changed
    announce undefined c
    return ⟨objectsOf c, undefined, b.original, b.patched⟩

end Differential

end Hotpatch
