import Hotpatch.Staging

/-!
The place where a run works: a cache directory with a scratch directory and a log. On entering, both
are made anew. On leaving, however the run ended, the registered actions are done, the scratch
directory goes, and the log stays only if something went wrong.
-/

namespace Hotpatch

/-- A path with its leading `~` replaced by the home directory of the user it stands for. -/
def expandHome (home s : String) : Except Fault String :=
  let p := Path.ofText s
  match p.parts with
  | [] => .ok p.text
  | first :: rest =>
    if p.slashes ≠ 0 || !Text.starts "~" first then .ok p.text
    else
      let place := if first = "~" then some home else if first = "~root" then some "/root" else none
      match place with
      | some h => .ok (clean (glue h ("/".intercalate rest)))
      | none => .error .homeless

structure Workspace where
  cache : String
  debug : Bool
  keep : Bool
  deriving DecidableEq, Repr

/-- What is done on leaving. -/
abbrev Cleanup := Act Unit

namespace Workspace

def source : String := "livepatch_build.pipeline.workspace"

def ofCache (home cache : String) (debug keep : Bool) : Except Fault Workspace :=
  (expandHome home cache).map (⟨·, debug, keep⟩)

def scratch (w : Workspace) : String := under w.cache "tmp"

def logFile (w : Workspace) : String := under w.cache "build.log"

def prepare (w : Workspace) : Act Unit := do
  let _ ← Staging.ensureDirectory w.cache
  if ← Act.present w.scratch then Act.change (·.removeTree · w.scratch)
  let _ ← Staging.ensureDirectory w.scratch
  if ← Act.present w.logFile then Act.change (·.unlink · w.logFile)

def enter (w : Workspace) : Act Unit := do
  match ← Act.attempt w.prepare with
  | .error (.disk e) =>
    Act.fail (.staging ("can't prepare workspace in " ++ w.cache ++ ": " ++ e.message))
  | r => Act.ofExcept r
  Log.setup (some w.logFile) w.debug
  Log.debug source ("Using work directory " ++ w.scratch)

/-- Does all the actions; one that fails doesn't keep the others from being done. Gives the first
fault; an interrupt ends it all at once. -/
def runCleanups : List Cleanup → Act (Option Fault)
  | [] => return none
  | a :: as => do
    match ← Act.attempt a with
    | .ok _ => runCleanups as
    | .error e =>
      if e.isInterrupt then throw e
      Log.error source ("Cleanup failed: " ++ e.message)
      let _ ← runCleanups as
      return some e

/-- Takes the scratch directory away, unless it is to be kept. -/
def releaseScratch (w : Workspace) : Act Unit := do
  if w.debug || w.keep then Log.info source ("Keeping work directory " ++ w.scratch)
  else if ← Act.ask (·.isDir · w.scratch) then Act.change (·.removeTree · w.scratch)

/-- Takes the log away if it is there. -/
def releaseLog (w : Workspace) : Act Unit := do
  match ← Act.attempt (Act.change (·.unlink · w.logFile)) with
  | .error (.disk (.failed .notFound _)) => return
  | r => Act.ofExcept r

/-- Leaves the workspace after a block, whether or not the block failed. The actions are done last
registered first. A fault of theirs shows only if the block had none. -/
def leave (w : Workspace) (registered : List Cleanup) (failed : Bool) : Act Unit := do
  let fault ← runCleanups registered.reverse
  w.releaseScratch
  Log.closeFiles
  if !failed && fault.isNone && !w.debug then w.releaseLog
  match fault with
  | some e => if failed then return else throw e
  | none => return

end Workspace

end Hotpatch
