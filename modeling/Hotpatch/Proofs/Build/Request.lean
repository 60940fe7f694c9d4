import Hotpatch.Build.SourceCache
import Hotpatch.Proofs.Robust

/-! A request for a source, up to the start of its tool and from there on. What the tool left when it
was through is what the source is compared with later. -/

namespace Hotpatch

open Act

namespace SourceCache

/-- A request for the source of a version, with the words of the tool that fetches it if there is one. -/
structure Request where
  version : String
  tool : Option (List String)

def Request.words (r : Request) : Json := r.tool.elim .null Json.ofTexts

def serve (c : SourceCache) (r : Request) : Act String := c.ensure (.str r.version) r.words

/-- What a request does where the source is not there, before its tool is started. -/
def prepare (c : SourceCache) (r : Request) : Act Start := do
  c.invalidate
  if !r.words.isTrue then
    Act.fail (.configuration
      ("no cached source for kernel " ++ r.version ++ " and no fetch command given"))
  let _ ← Staging.ensureDirectory c.dir
  Log.info channel ("Downloading kernel source for " ++ r.version)
  let argv := r.tool.getD [] ++ [r.version, c.tree]
  Log.debug Command.source ("Running command: " ++ " ".intercalate argv)
  return ⟨argv, none, .streamed []⟩

def approach (c : SourceCache) (r : Request) : Act (Option Start) := do
  if ← c.isCurrent (.str r.version) then
    Log.info channel ("Using cache at " ++ c.tree)
    return none
  if let some v ← c.version then
    Log.info channel ("Cached source is " ++ v ++ ", " ++ r.version ++ " requested")
  let s ← c.prepare r
  return some s

/-- What a request does when its tool is through: it tags a source that has arrived. -/
def enter (c : SourceCache) (version : String) (arrived : Bool) : Act String := do
  if !arrived then
    c.invalidate
    Act.fail (.configuration ("failed to acquire kernel source for " ++ version))
  Act.change (·.write · c.tag (Text.encode (version ++ "\n")))
  return c.tree

def keep (c : SourceCache) (version : String) (r : Command.Result) : Act String :=
  if r.succeeded then Act.isDir c.tree >>= c.enter version else c.enter version false

theorem allTexts_map (ss : List String) : Json.allTexts (ss.map .str) = .ok ss := by
  induction ss with
  | nil => rfl
  | cons s ss ih =>
    rw [Json.allTexts, List.map_cons, List.mapM_cons, ← Json.allTexts, ih]
    rfl

/-- A tool that was started, as what it left. -/
structure Fetch where
  version : String
  ending : Ending
  disk : Disk

/-- What a tool leaves that is about to be started, if one is. -/
def Fetch.of? (h : Host) (version : String) : Except Fault (Option Start) × Site → Option Fetch
  | (.ok (some start), u) =>
    let left := h.react u.events start u.disk
    some ⟨version, left.ending, left.disk⟩
  | _ => none

/-- What the tool of a request leaves, if it is started. -/
def fetched (c : SourceCache) (r : Request) (h : Host) (t : Site) : Option Fetch :=
  Fetch.of? h r.version (c.approach r h t)

end SourceCache

end Hotpatch
