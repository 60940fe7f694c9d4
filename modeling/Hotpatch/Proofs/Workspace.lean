import Hotpatch.Proofs.Robust
import Hotpatch.Workspace

/-! Leaving a workspace. Every registered action takes its turn, whatever comes of the others. Then the
scratch directory goes, unless it is to be kept, and the log stays if anything failed. -/

namespace Hotpatch

open Act

variable {h : Host} {w : Workspace} {K : Place}

namespace Workspace

variable {t t' u : Site}

/-- What is done after the registered actions. -/
def release (w : Workspace) (failed : Bool) (fault : Option Fault) : Act Unit := do
  w.releaseScratch
  Log.closeFiles
  if !failed && fault.isNone && !w.debug then w.releaseLog
  match fault with
  | some e => if failed then return else throw e
  | none => return

/-- Whether the scratch directory and the log stand where they were made. -/
structure Furnished (h : Host) (w : Workspace) (t : Site) : Prop where
  scratch : t.disk.isDir h.cwd w.scratch = true
  log : t.disk.isFile h.cwd w.logFile = true

theorem Furnished.emit (h : Host) (w : Workspace) (r : Log.Record) :
    Keeps h (Furnished h w) (Log.emit r) := by
  intro t ht
  have hkept := (Log.emit_keeps (h := h) (t := t) (r := r)
    (J := fun d => d.isDir h.cwd w.scratch = true ∧ d.isFile h.cwd w.logFile = true)
    (fun d p n c _ hd => ?_) ⟨ht.scratch, ht.log⟩).1
  · exact ⟨hkept.1, hkept.2⟩
  · obtain ⟨q, hq⟩ := Disk.isDir_iff.1 hd.1
    obtain ⟨r, f, hr⟩ := Disk.isFile_iff.1 hd.2
    obtain ⟨m, hm, hdir⟩ := Disk.find_append hq p n c
    obtain ⟨m', hm', hfile⟩ := Disk.find_append hr p n c
    refine ⟨Disk.isDir_iff.2 ⟨q, by rw [hm, hdir.2 rfl]⟩, Disk.isFile_iff.2 ?_⟩
    cases m' with
    | dir => cases hfile.1 rfl
    | file g => exact ⟨r, g, hm'⟩

section Turns

/-- What is noted of an action that failed. -/
def noteOf (e : Fault) : Log.Record := ⟨source, .error, "Cleanup failed: " ++ e.message⟩

end Turns

section Release

/-- How a fault of the actions shows after a block. -/
def ending (failed : Bool) : Option Fault → Except Fault Unit
  | some e => if failed then .ok () else .error e
  | none => .ok ()

end Release

section Block

variable {α : Type}

/-- A cache with a scratch directory and a log. -/
def Entered.host : Host :=
  { cwd := ["work"], home := "/root", machine := "x86_64", cpus := none, environment := []
    hasTool := fun _ => true
    react := fun _ _ d => ⟨d, .error .notFound⟩ }

def Entered.site : Site :=
  { disk := ⟨[(["work"], .dir), (["work", "cache"], .dir), (["work", "cache", "tmp"], .dir),
      (["work", "cache", "build.log"], .file ⟨[], 0, 0⟩)], 1⟩
    events := [], records := [], sinks := [], console := [], series := .empty }

def Entered.workspace : Workspace := ⟨"cache", false, false⟩

end Block

end Workspace

end Hotpatch
