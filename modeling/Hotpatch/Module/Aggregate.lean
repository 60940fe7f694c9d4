import Hotpatch.Elf.Inspection
import Hotpatch.Module.Assembly
import Hotpatch.Module.Diff

/-!
From changed objects to a module. Every object is skipped, taken over as new, or compared with its
original; when none failed, what changed and what is new is linked and made into a module. Main
definition: `Aggregate.assemble`.
-/

namespace Hotpatch

structure PatchModule where
  name : String
  path : String
  linked : String
  /-- The objects that went into it. -/
  objects : List ChangedObject
  checksum : Option String
  deriving DecidableEq, Repr

/-- The names of the binaries that a module changes, each once and sorted. -/
def PatchModule.owners (m : PatchModule) : List String :=
  ((m.objects.filterMap fun o => o.owner.map Kbuild.Binary.name).eraseDups).mergeSort

structure Aggregate where
  differ : Differ
  assembler : Assembler
  work : String
  moduleName : String
  symvers : String
  /-- Whether the kernel needs the shadow runtime to replace functions. -/
  shadow : Bool

namespace Aggregate

def source : String := "livepatch_build.diff.aggregator"

/-- Objects that can't be compared, and the one that holds the initial file system. -/
def excluded : List String := [
  "usr/initramfs_data.o", "init/version.o", "arch/x86/boot/*", "arch/x86/entry/vdso/*",
  "arch/x86/realmode/*", "arch/x86/purgatory/*", "arch/powerpc/kernel/vdso*",
  "drivers/firmware/efi/libstub/*"]

def isExcluded (path : String) : Bool := excluded.any (Text.Wildcard.matches · path)

def output (a : Aggregate) : String := under a.work "output"

/-- The module's name as the differences bear it. -/
def symbolName (a : Aggregate) : String :=
  String.ofList (a.moduleName.toList.map fun c => if c = '-' then '_' else c)

def request (a : Aggregate) (original patched : String) (o : ChangedObject)
    (owner : Kbuild.Binary) : DiffRequest :=
  ⟨under original o.path, under patched o.path, owner, under a.output o.path, clean a.symvers,
    a.symbolName⟩

/-- An object that changed but is linked through more than one parent can't be patched. -/
def refine (r : Kbuild.Resolver) (o : ChangedObject) (v : Verdict) : Act Verdict := do
  if v = .changed && r.isAmbiguous o.path then
    match r.ambiguities.lookup o.path with
    | none => throw .unknownName
    | some ps =>
      Log.error source (o.path ++ ": changed, but linked through more than one parent (" ++
        ", ".intercalate ps ++ ")")
      return .error
  return v

def announce (o : ChangedObject) (owner : Kbuild.Binary) (v : Verdict) : Act Unit :=
  match v with
  | .error => return
  | .changed => Log.info source (o.path ++ ": changed function(s) in " ++ owner.name)
  | _ => Log.info source (o.path ++ ": no functional changes")

/-- What a survey counts on its way: the files to be linked, the objects they are of, and how many
objects failed. -/
structure Tally where
  outputs : List String
  included : List ChangedObject
  errors : Nat

namespace Tally

def zero : Tally := ⟨[], [], 0⟩

/-- One more object goes into the module. -/
def take (t : Tally) (output : String) (o : ChangedObject) : Tally :=
  { t with outputs := t.outputs ++ [output], included := t.included ++ [o] }

def fail (t : Tally) : Tally := { t with errors := t.errors + 1 }

end Tally

/-- Takes an object over that has no original. -/
def takeNew (a : Aggregate) (patched : String) (t : Tally) (o : ChangedObject) :
    Act (ChangedObject × Tally) := do
  let staged ← Staging.stage patched o.path a.output
  let o ← Act.ofExcept (o.settle .new)
  Log.info source (o.path ++ ": new object")
  return (o, t.take staged o)

/-- Compares the two versions of an object. -/
def contrast (a : Aggregate) (original patched : String) (r : Kbuild.Resolver) (t : Tally)
    (o : ChangedObject) (owner : Kbuild.Binary) : Act (ChangedObject × Tally) := do
  let v ← refine r o (← a.differ.diff (a.request original patched o owner))
  let o ← Act.ofExcept (o.settle v)
  announce o owner v
  return (o, match v with
    | .error => t.fail
    | .changed => t.take (under a.output o.path) o
    | _ => t)

/-- Judges an object whose owner is known, and counts it. -/
def judge (a : Aggregate) (original patched : String) (r : Kbuild.Resolver) (t : Tally)
    (o : ChangedObject) (owner : Kbuild.Binary) : Act (ChangedObject × Tally) := do
  let old ← if o.isNew then pure false else Act.present (under original o.path)
  if old then a.contrast original patched r t o owner else a.takeNew patched t o

/-- What is known of an object after it was examined, what was counted until then, and what kept
from going on. -/
structure Examined where
  object : ChangedObject
  resolver : Kbuild.Resolver
  tally : Tally
  fault : Option Fault

def examine (a : Aggregate) (original patched : String) (r : Kbuild.Resolver) (t : Tally)
    (o : ChangedObject) : Act Examined := do
  if isExcluded o.path then
    Log.info source ("Skipping " ++ o.path)
    match o.settle .skipped with
    | .ok o => return ⟨o, r, t, none⟩
    | .error f => return ⟨o, r, t, some f⟩
  match ← Kbuild.Search.perform r (Kbuild.Search.owner o.path) with
  | (.error f, r) => return ⟨o, r, t, some f⟩
  | (.ok owner, r) =>
    let o := { o with owner := some owner }
    match ← Act.attempt (a.judge original patched r t o owner) with
    | .ok (o, t) => return ⟨o, r, t, none⟩
    | .error f => return ⟨o, r, t, some f⟩

/-- All objects after they were examined, with what was counted; a fault leaves those behind it as
they were. -/
structure Survey where
  objects : List ChangedObject
  resolver : Kbuild.Resolver
  tally : Tally
  fault : Option Fault

def survey (a : Aggregate) (original patched : String) (r : Kbuild.Resolver) (t : Tally) :
    List ChangedObject → Act Survey
  | [] => return ⟨[], r, t, none⟩
  | o :: os => do
    let e ← a.examine original patched r t o
    match e.fault with
    | some f => return ⟨e.object :: os, e.resolver, e.tally, some f⟩
    | none =>
      let s ← a.survey original patched e.resolver e.tally os
      return { s with objects := e.object :: s.objects }

/-- Links the differences and makes the module. -/
def build (a : Aggregate) (outputs : List String) (included : List ChangedObject) :
    Act PatchModule := do
  let place := under a.work "patch"
  let linked := under place "tmp_output.o"
  Log.info source ("Linking " ++ toString outputs.length ++ " object(s) into " ++ a.moduleName)
  a.assembler.link outputs linked
  if !(← Elf.isRelocatableObject linked) then
    Act.fail (.staging (linked ++ " is not a relocatable ELF object"))
  let checksum ← if a.shadow then some <$> a.assembler.embedChecksum linked else pure none
  let path := under place (a.moduleName ++ ".ko")
  Log.info source ("Building patch module: " ++ fileName path)
  a.assembler.buildModule linked a.moduleName path
  return ⟨a.moduleName, path, linked, included, checksum⟩

/-- Goes on from the examined objects. -/
def conclude (a : Aggregate) (s : Survey) : Act PatchModule := do
  if let some f := s.fault then throw f
  let t := s.tally
  if t.errors ≠ 0 then
    Act.fail (.diff (toString t.errors ++ " error(s) encountered") t.errors)
  if t.outputs.isEmpty then Act.fail (.diff "no functional changes found" 0)
  a.build t.outputs t.included

/-- The module, or why there is none, with the objects as they are then. -/
structure Assembled where
  objects : List ChangedObject
  resolver : Kbuild.Resolver
  result : Except Fault PatchModule

/-- Compares the objects of two trees and makes a module of what changed. -/
def assemble (a : Aggregate) (r : Kbuild.Resolver) (objects : List ChangedObject)
    (original patched : String) : Act Assembled := do
  Log.info source "Extracting new and modified ELF sections"
  match ← Act.attempt (Staging.ensureDirectory a.output) with
  | .error f => return ⟨objects, r, .error f⟩
  | .ok _ =>
    let s ← a.survey original patched r .zero objects
    return ⟨s.objects, s.resolver, ← Act.attempt (a.conclude s)⟩

end Aggregate

end Hotpatch
