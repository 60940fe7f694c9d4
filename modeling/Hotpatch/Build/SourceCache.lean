import Hotpatch.Command
import Hotpatch.Json.Demand
import Hotpatch.Staging
import Hotpatch.Text.Blank

/-!
A kernel source kept from run to run. The version it is of is written beside it once it has arrived
whole; a source of another version is thrown away and fetched anew.
-/

namespace Hotpatch

structure SourceCache where
  dir : String
  deriving DecidableEq, Repr

namespace SourceCache

def channel : String := "livepatch_build.build.source_cache"

def tree (c : SourceCache) : String := under c.dir "src"

def tag (c : SourceCache) : String := under c.dir "version"

/-- The version of the source that is there. -/
def version (c : SourceCache) : Act (Option String) := do
  if !(← Act.present c.tag) then return none
  if !(← Act.isDir c.tree) then return none
  let v := Text.trim (← Act.readText c.tag)
  return if v = "" then none else some v

def isCurrent (c : SourceCache) (version : Json) : Act Bool := do
  match ← c.version with
  | some v => return version.same (.str v)
  | none => return version.isNull

def clear (c : SourceCache) : Act Unit := do
  if ← Act.present c.tree then Act.change (·.removeTree · c.tree)
  if ← Act.present c.tag then Act.change (·.unlink · c.tag)

/-- Throws the source away with its version. -/
def invalidate (c : SourceCache) : Act Unit := do
  Log.info channel ("Clearing cached kernel source in " ++ c.tree)
  match ← Act.attempt c.clear with
  | .error (.disk e) => Act.fail (.staging ("failed to clear source cache: " ++ e.message))
  | r => Act.ofExcept r

/-- Fetches the source of a version with a tool that puts it in its place. -/
def fetch (c : SourceCache) (version tool : Json) : Act String := do
  let _ ← Staging.ensureDirectory c.dir
  Log.info channel ("Downloading kernel source for " ++ version.shown)
  let words := (← Act.ofExcept tool.items) ++ [version, .str c.tree]
  let r ← Command.run (← Act.ofExcept (Json.allTexts words)) none []
  let arrived ← if r.succeeded then Act.isDir c.tree else pure false
  if !arrived then
    c.invalidate
    Act.fail (.configuration ("failed to acquire kernel source for " ++ version.shown))
  Act.change (·.write · c.tag (Text.encode (version.shown ++ "\n")))
  return c.tree

/-- The source of a version, which is fetched unless it is there. -/
def ensure (c : SourceCache) (version tool : Json) : Act String := do
  if ← c.isCurrent version then
    Log.info channel ("Using cache at " ++ c.tree)
    return c.tree
  if let some v ← c.version then
    Log.info channel ("Cached source is " ++ v ++ ", " ++ version.shown ++ " requested")
  c.invalidate
  if !tool.isTrue then
    Act.fail (.configuration
      ("no cached source for kernel " ++ version.shown ++ " and no fetch command given"))
  c.fetch version tool

end SourceCache

end Hotpatch
