import Hotpatch.Kbuild.Config

/-!
What a kernel configuration has to be for its kernel to be patched while it runs: built with debug
information, and without options that make two builds of one source differ.
-/

namespace Hotpatch.Kbuild

inductive Severity where
  | error | warning | info
  deriving DecidableEq, Repr

def Severity.name : Severity → String
  | .error => "error"
  | .warning => "warning"
  | .info => "info"

structure Finding where
  severity : Severity
  option : String
  message : String
  expected : Option String
  actual : Option String
  deriving DecidableEq, Repr

namespace Requirement

def source : String := "livepatch_build.config.validator"

def required : List (String × String) := [("CONFIG_DEBUG_INFO", "y")]

def unsupported : List String :=
  ["CONFIG_DEBUG_INFO_SPLIT", "CONFIG_GCC_PLUGIN_LATENT_ENTROPY", "CONFIG_GCC_PLUGIN_RANDSTRUCT"]

/-- The option of a kernel that can replace functions by itself. -/
def native : String := "CONFIG_LIVEPATCH"

def paravirt : String := "CONFIG_PARAVIRT"

def checkRequired (c : Config) : List Finding :=
  required.filterMap fun (o, v) =>
    if c.value? o = some v then none
    else some ⟨.error, o, "kernel doesn't have '" ++ o ++ "' enabled", some v, c.value? o⟩

def checkUnsupported (c : Config) : List Finding :=
  unsupported.filterMap fun o =>
    if c.isEnabled o then
      some ⟨.error, o, "kernel option '" ++ o ++ "' is not supported", some "n", c.value? o⟩
    else none

def mode (c : Config) : Finding :=
  ⟨.info, native,
    if c.isEnabled native then "native live-patch support present"
    else "native live-patch support absent, using the shadow runtime",
    none, c.value? native⟩

def check (c : Config) : List Finding := checkRequired c ++ checkUnsupported c ++ [mode c]

def report (f : Finding) : Act Unit :=
  match f.severity with
  | .error => return
  | .warning => Log.warning source (f.option ++ ": " ++ f.message)
  | .info => Log.debug source (f.option ++ ": " ++ f.message)

/-- Checks a configuration; the first error ends the run. -/
def ensure (c : Config) : Act (List Finding) := do
  let fs := check c
  fs.forM report
  match fs.find? (·.severity = .error) with
  | some f => Act.fail (.prerequisite f.message)
  | none => return fs

end Requirement

end Hotpatch.Kbuild
