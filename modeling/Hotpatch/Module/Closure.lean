import Hotpatch.Elf.Inspection

/-!
Whether a module can be loaded: every symbol that the patched build left undefined has to be defined
by the module itself, or by the shadow runtime where the kernel needs that.
-/

namespace Hotpatch

/-- The symbols that a module needs and those that are there for it, each once and sorted. -/
structure Closure where
  required : List String
  provided : List String
  deriving DecidableEq, Repr

namespace Closure

def source : String := "livepatch_build.verification.symbol_verifier"

/-- What the shadow runtime defines. -/
def runtime : List String := [
  "kpatch_shadow_alloc", "kpatch_shadow_free", "kpatch_shadow_get", "kpatch_register",
  "kpatch_unregister", "kpatch_root_kobj"]

def ofSymbols (undefined module : List String) (shadow : Bool) : Closure :=
  ⟨undefined.eraseDups.mergeSort,
    ((module ++ if shadow then runtime else []).eraseDups).mergeSort⟩

def unsatisfied (c : Closure) : List String := c.required.filter (· ∉ c.provided)

def isSatisfied (c : Closure) : Bool := c.unsatisfied.isEmpty

/-- Checks a finished module. -/
def verify (undefined : List String) (module : String) (shadow : Bool) : Act Closure := do
  Log.info source "Checking for undefined symbols"
  let c := ofSymbols undefined (← Elf.definedSymbols module) shadow
  match c.unsatisfied with
  | [] =>
    Log.debug source ("All " ++ toString c.required.length ++
      " unresolved build reference(s) satisfied")
    return c
  | missing =>
    missing.forM fun s => Log.error source ("Undefined symbol: " ++ s)
    Act.fail (Failure.unsatisfied missing)

end Closure

end Hotpatch
