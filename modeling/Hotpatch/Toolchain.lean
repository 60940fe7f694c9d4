import Hotpatch.Elf.Inspection
import Hotpatch.Text.Lines

/-!
The tools on the machine. All that are needed have to be there, and the compiler has to be of the
version the kernel was built with, or every object would look changed.
-/

namespace Hotpatch

/-- A compiler and the tools that are needed beside it. -/
structure Toolchain where
  compiler : String
  extra : List String
  deriving DecidableEq, Repr

namespace Toolchain

def source : String := "livepatch_build.build.toolchain_manager"

def standard : Toolchain := ⟨"gcc", []⟩

def required (t : Toolchain) : List String :=
  ["make", "patch", "ld", "objcopy", t.compiler] ++ t.extra

/-- Where each of the tools is, if it is anywhere. -/
def find (t : Toolchain) : Act (List (String × Option String)) := do
  let h ← read
  return t.required.eraseDups.map fun n =>
    (n, if h.hasTool n then some ("/usr/bin/" ++ n) else none)

/-- The version in what the compiler prints: it has to succeed and print something. -/
def versionIn (o : Outcome) : Option String :=
  if o.status = 0 then
    o.output.bind fun out => (Text.lines out).head?.map Banner.versionOf
  else none

/-- The version that the compiler reports. -/
def version (t : Toolchain) : Act (Option String) := do
  let argv := [t.compiler, "--version"]
  match ← Tool.launch ⟨argv, none, .captured⟩ with
  | .ok o => return versionIn o
  | .error r =>
    let fault := r.fault argv
    if fault.isInterrupt then throw fault
    Log.error source ("Error running " ++ t.compiler ++ " --version: " ++ fault.message)
    return none

/-- A toolchain that was found to be fit. -/
structure Validated where
  compiler : String
  version : Option String
  tools : List (String × String)
  deriving DecidableEq, Repr

/-- Compares the compiler with the one that a kernel image records. -/
def checkCompiler (image : String) (host : Option String) : Act Unit := do
  match ← Elf.compilerVersion image with
  | none => Log.warning source ("No compiler version recorded in " ++ image)
  | some v =>
    if some v ≠ host then
      Act.fail (.prerequisite ("compiler version mismatch: kernel built with '" ++ v ++
        "', host has '" ++ host.getD "None" ++ "'"))

/-- Checks the tools and the compiler against a kernel image. -/
def validate (t : Toolchain) (image : String) (skip : Bool) : Act Validated := do
  let tools ← t.find
  let missing := (tools.filter (·.2.isNone)).map Prod.fst
  if !missing.isEmpty then
    Act.fail (.prerequisite ("missing required tools: " ++ ", ".intercalate missing))
  let host ← t.version
  if skip then Log.warning source "Skipping compiler version check"
  else checkCompiler image host
  Log.debug source ("Toolchain validated: " ++ t.compiler ++ " " ++ host.getD "None")
  return ⟨t.compiler, host, tools.filterMap fun p => p.2.map (p.1, ·)⟩

end Toolchain

end Hotpatch
