import Hotpatch.Build.Differential
import Hotpatch.Build.SourceCache
import Hotpatch.Kbuild.Requirement
import Hotpatch.Module.Aggregate
import Hotpatch.Module.Closure
import Hotpatch.Module.Name
import Hotpatch.Settings.File
import Hotpatch.Toolchain

/-!
A whole run: from patches and settings to a module in the output directory. The stages go strictly
one after the other inside a workspace; whichever way they end, the patches come out of the tree.
Main definition: `Pipeline.run`.
-/

namespace Hotpatch

/-- What a run has found out so far. -/
structure Progress where
  settings : Settings
  /-- Whether the kernel replaces functions by itself. -/
  native : Bool
  paravirt : Bool
  layout : Option Layout
  module : Option PatchModule

def Progress.start (s : Settings) : Progress := ⟨s, false, false, none, none⟩

namespace Pipeline

def source : String := "livepatch_build.pipeline.orchestrator"

/-- How far a run got, and how it ended. -/
abbrev Ended (α : Type) := Progress × Except Fault α

/-- Goes on with the result of a stage; a fault ends the run with what is known then. -/
def step {α β} (p : Progress) (stage : Act α) (next : α → Act (Ended β)) : Act (Ended β) := do
  match ← Act.attempt stage with
  | .error e => return (p, .error e)
  | .ok a => next a

/-- Gets the source of the version that is asked for, if one is. -/
def prepareSource (s : Settings) : Act Settings := do
  let version := s.value .targetVersion
  if version.isNull then return s
  if !(s.value .sourceDir).isNull then
    Settings.refuse "a source directory and a target version are mutually exclusive"
  let c : SourceCache := ⟨clean (← s.cachePath)⟩
  Act.ofExcept (s.useSource (.str (← c.ensure version (s.value .fetchCommand))))

/-- The text of a setting, which has to be one. -/
def textOf (s : Settings) (f : Settings.Field) : Act String := Act.ofExcept (s.text f)

/-- The kernel's configuration, if it can be patched at all. -/
def readConfig (s : Settings) : Act Kbuild.Config := do
  let c ← Kbuild.Config.load (← textOf s .configFile)
  let _ ← Kbuild.Requirement.ensure c
  return c

def checkTools (p : Progress) : Act Unit := do
  let s := p.settings
  if s.isGiven .ootModule && !p.native then
    Log.warning source "Out-of-tree module patching without native live-patch support"
  let _ ← Toolchain.standard.validate (← textOf s .vmlinux) (s.isGiven .skipGccCheck)

/-- The target, which is asked how its name begins. -/
def archOf (s : Settings) : Except Fault String :=
  match s.value .arch with
  | .str a => .ok a
  | j => .error (.lacking j.make "startswith")

/-- Names the module and finds the sizes of the kernel's special records. -/
def probe (p : Progress) : Act (String × Layout) := do
  let s := p.settings
  let name ← Act.ofExcept (ModuleName.ofValues (s.value .patches) (s.value .name) p.native)
  Log.info source ("Building patch module " ++ name ++ " for " ++ (s.value .arch).shown)
  let image ← textOf s .vmlinux
  return (name, ← Layout.probe image (← Act.ofExcept (archOf s)) p.paravirt)

def differential (s : Settings) (tree : String) (w : Workspace) : Differential :=
  ⟨.standard, tree, w.scratch, s.value .targets, s.value .jobs, s.value .extraMakeArgs⟩

/-- Tries the patches, and builds the kernel without and with them. -/
def harvest (s : Settings) (tree : String) (w : Workspace) : Act Harvest := do
  let patches ← Act.ofExcept ((s.value .patches).items >>= Json.allTexts)
  Series.put (Series.ofPatches (← Act.path) tree patches)
  Log.info source "Testing patch file(s)"
  Series.apply
  Series.revertAll
  let b := differential s tree w
  let before ← b.baseline
  b.instrumented (some before)

def symvers (tree : String) : String := under tree "Module.symvers"

/-- What links the differences and makes a module of them; flags have to be a row. -/
def assembler (s : Settings) : Except Fault Assembler := do
  return ⟨s.value .moduleTool, "ld", "objcopy", ← (s.value .extraLinkFlags).itemsIfTrue⟩

def aggregate (p : Progress) (a : Assembler) (layout : Layout) (name tree : String)
    (w : Workspace) : Aggregate :=
  let s := p.settings
  { differ := ⟨s.value .diffCompiler, layout, s.isGiven .debug⟩
    assembler := a
    work := w.scratch
    moduleName := name
    symvers := symvers tree
    shadow := !p.native }

/-- Builds, compares and assembles the module; gives it with the undefined symbols. -/
def assemble (p : Progress) (a : Assembler) (layout : Layout) (name : String) (w : Workspace) :
    Act (PatchModule × List String) := do
  let s := p.settings
  let tree ← textOf s .sourceDir
  let h ← harvest s tree w
  if !(← Act.present (symvers tree)) then
    Act.fail (.prerequisite (symvers tree ++ " not found after build"))
  let outside ← if s.isGiven .ootModule then some <$> textOf s .ootModule else pure none
  let r := Kbuild.Resolver.ofTree (← read).cwd tree (← textOf s .vmlinux) outside
  let m ← (aggregate p a layout name tree w).assemble r h.objects h.original h.patched
  return (← Act.ofExcept m.result, h.undefined)

/-- Copies the module to where it is wanted. -/
def deliver (outputDir module : String) : Act String := do
  let dir := clean outputDir
  let target := under dir (fileName module)
  match ← Act.attempt do
      Act.makeDirs dir
      Act.change (·.copy · module target) with
  | .error (.disk e) =>
    Act.fail (.staging ("failed to copy " ++ fileName module ++ " to " ++ dir ++ ": " ++ e.message))
  | r =>
    Act.ofExcept r
    return target

/-- Checks the module and delivers it. -/
def finish (p : Progress) (m : PatchModule) (undefined : List String) : Act String := do
  let _ ← Closure.verify undefined m.path (!p.native)
  let output ← deliver (← textOf p.settings .outputDir) m.path
  Log.info source ("SUCCESS: " ++ output)
  return output

/-- All stages of a run inside a workspace. -/
def stages (w : Workspace) (a : Assembler) (p : Progress) : Act (Ended String) :=
  step p (prepareSource p.settings) fun s =>
  let p := { p with settings := s }
  step p s.validate fun _ =>
  step p (readConfig s) fun c =>
  let p := { p with
    native := c.isEnabled Kbuild.Requirement.native
    paravirt := c.isEnabled Kbuild.Requirement.paravirt }
  step p (checkTools p) fun _ =>
  step p (probe p) fun (name, layout) =>
  let p := { p with layout := some layout }
  step p (assemble p a layout name w) fun (m, undefined) =>
  let p := { p with module := some m }
  step p (finish p m undefined) fun output => return (p, .ok output)

def isFault {α} : Except Fault α → Bool
  | .error _ => true
  | .ok _ => false

/-- A run inside its workspace, which is left however the run ends. -/
def runIn (w : Workspace) (a : Assembler) (p : Progress) : Act (Ended String) := do
  w.enter
  let (p, r) ← stages w a p
  match ← Act.attempt (w.leave [Series.revertAll] (isFault r)) with
  | .error e => return (p, .error e)
  | .ok _ => return (p, r)

def workspace (s : Settings) : Act Workspace := do
  Act.ofExcept
    (Workspace.ofCache (← read).home (← s.cachePath) (s.isGiven .debug) (s.isGiven .skipCleanup))

/-- Makes a module of patches and gives the path where it is delivered. -/
def run (s : Settings) : Act (Ended String) := do
  Series.put Series.empty
  let p := Progress.start s
  step p (Act.ofExcept (assembler s)) fun a =>
  step p (workspace s) fun w =>
  step p (runIn w a p) fun r => return r

def logFile (s : Settings) : Act String := return under (← s.cachePath) "build.log"

end Pipeline

end Hotpatch
