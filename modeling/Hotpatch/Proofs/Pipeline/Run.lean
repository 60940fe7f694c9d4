import Hotpatch.Proofs.Module
import Hotpatch.Proofs.Pipeline.Course
import Hotpatch.Proofs.Workspace

/-! A whole run, as its stages inside a workspace and the leaving of the workspace. Entering and
leaving change the tree and the log only, but for the patches that are taken out. -/

namespace Hotpatch

open Act Series

variable {h : Host} {mine seen : String → Prop} {I : Site → Prop}

namespace Robust

variable (hI : Robust h mine seen I)
include hI

theorem check (undefined : List String) (m : String) (shadow : Bool) :
    Keeps h I (Closure.check undefined m shadow) := by
  refine (definedSymbols _).bind fun _ => ?_
  dsimp only
  split
  · exact (hI.debug _ _).bind fun _ => .pure _
  · exact (Keeps.forM (fun _ => hI.error _ _) _).bind fun _ => .fail _

theorem verify (undefined : List String) (m : String) (shadow : Bool) :
    Keeps h I (Closure.verify undefined m shadow) :=
  (hI.info _ _).bind fun _ => hI.check undefined m shadow

theorem deliver {dir m : String} (hm : Within mine (under (clean dir) (fileName m))) :
    Keeps h I (Pipeline.deliver dir m) := by
  refine (Keeps.attempt ((hI.makeDirs _).bind fun _ => hI.copy _ _ hm)).bind fun _ => ?_
  split
  · exact .fail _
  · exact (Keeps.ofExcept _).bind fun _ => .pure _

theorem finish {p : Progress} {m : PatchModule}
    (hm : ∀ dir, p.settings.text .outputDir = .ok dir →
      Within mine (under (clean dir) (fileName m.path)))
    (undefined : List String) : Keeps h I (Pipeline.finish p m undefined) := by
  have delivered : Yields h I (do
      let output ← Pipeline.deliver (← Pipeline.textOf p.settings .outputDir) m.path
      Log.info Pipeline.source ("SUCCESS: " ++ output)
      return output : Act String) (fun _ => I) I := by
    refine Yields.bind (S := fun dir t => p.settings.text .outputDir = .ok dir ∧ I t)
      (.ofExcept (fun _ hv _ ht => ⟨hv, ht⟩) fun _ => id) fun dir => Yields.given fun hdir => ?_
    exact (hI.deliver (hm dir hdir)).then (fun _ => (hI.info _ _).then (fun _ =>
      .pure fun _ => id) fun _ => id) fun _ => id
  exact (hI.verify _ _ _).bind fun _ => delivered.leads (fun _ _ => id) fun _ => id

end Robust

/-- What changes only the tree, the log and what the console shows. -/
def Quiet (t t' : Site) : Prop := t'.series = t.series ∧ t'.events = t.events

theorem Quiet.aside {t t' : Site} (ha : Quiet t t') : Aside t t' := ⟨ha.1, [], ha.2, by simp⟩

namespace Workspace

variable {t : Site} {w : Workspace}

theorem quiet_change (q : Disk → Place → Except DiskError Disk) : Keeps h (Quiet t) (change q) := by
  intro u hu
  rw [change_apply]
  split <;> exact hu

theorem quiet_makeDirs (p : String) : Keeps h (Quiet t) (makeDirs p) := by
  intro u hu
  obtain ⟨r, hr⟩ := makeDirs_apply h u p
  rw [hr]
  exact hu

theorem quiet_emit (r : Log.Record) : Keeps h (Quiet t) (Log.emit r) := by
  intro u hu
  obtain ⟨u', hu', hs, he⟩ := Log.emit_apply h u r
  rw [hu']
  exact ⟨hs.trans hu.1, he.trans hu.2⟩

theorem quiet_setup (file : Option String) (verbose : Bool) :
    Keeps h (Quiet t) (Log.setup file verbose) := by
  refine Keeps.bind (fun u hu => hu) fun _ => ?_
  split
  · exact .pure _
  · split
    · exact .pure _
    · refine (quiet_makeDirs _).bind fun _ => Keeps.path.bind fun _ => (Keeps.ask _).bind fun _ => ?_
      refine (quiet_change _).bind fun _ => (Keeps.ask _).bind fun _ => ?_
      split
      · exact fun u hu => hu
      · exact .pure _

theorem quiet_prepare : Keeps h (Quiet t) w.prepare := by
  have ensured : ∀ p, Keeps h (Quiet t) (Staging.ensureDirectory p) := fun p =>
    (quiet_makeDirs _).bind fun _ => .pure _
  refine (ensured _).bind fun _ => (Keeps.present _).bind fun _ => ?_
  refine Keeps.guard (quiet_change _) fun _ => (ensured _).bind fun _ => ?_
  refine (Keeps.present _).bind fun _ => ?_
  split
  · exact quiet_change _
  · exact .pure _

theorem quiet_enter : Keeps h (Quiet t) w.enter := by
  have noted : Keeps h (Quiet t) (do
      Log.setup (some w.logFile) w.debug
      Log.debug source ("Using work directory " ++ w.scratch) : Act Unit) :=
    (quiet_setup _ _).bind fun _ => quiet_emit _
  refine quiet_prepare.attempt.bind fun _ => ?_
  split
  · exact (Keeps.fail _).bind fun _ => noted
  · exact (Keeps.ofExcept _).bind fun _ => noted

theorem quiet_releaseScratch : Keeps h (Quiet t) w.releaseScratch := by
  rw [Workspace.releaseScratch]
  split
  · exact quiet_emit _
  · refine (Keeps.ask _).bind fun _ => ?_
    split
    · exact quiet_change _
    · exact .pure _

theorem quiet_releaseLog : Keeps h (Quiet t) w.releaseLog := by
  refine (quiet_change _).attempt.bind fun _ => ?_
  split
  · exact .pure _
  · exact .ofExcept _

theorem quiet_release (failed : Bool) (fault : Option Fault) :
    Keeps h (Quiet t) (w.release failed fault) := by
  refine quiet_releaseScratch.bind fun _ => Keeps.bind (fun u hu => hu) fun _ => ?_
  refine Keeps.guard quiet_releaseLog fun _ => ?_
  split
  · split
    · exact .pure _
    · exact .throw _
  · exact .pure _

/-- What comes of an action that is the only registered one. -/
def conclude : Except Fault Unit → Act (Option Fault)
  | .ok _ => return none
  | .error e => do
    if e.isInterrupt then throw e
    Log.error source ("Cleanup failed: " ++ e.message)
    return some e

theorem quiet_conclude (r : Except Fault Unit) : Keeps h (Quiet t) (conclude r) := by
  cases r with
  | ok => exact .pure _
  | error e => exact Keeps.guard (.throw _) fun _ => (quiet_emit _).bind fun _ => .pure _

theorem runCleanups_single (a : Cleanup) (t : Site) :
    runCleanups [a] h t = conclude (a h t).1 h (a h t).2 := by
  rw [runCleanups, bind_ok (attempt_apply h t a)]
  cases (a h t).1 <;> rfl

theorem leave_single (w : Workspace) (a : Cleanup) (failed : Bool) (t : Site) :
    w.leave [a] failed h t =
      (conclude (a h t).1 >>= w.release failed : Act Unit) h (a h t).2 := by
  show (runCleanups [a] >>= w.release failed) h t = _
  rcases hc : conclude (a h t).1 h (a h t).2 with ⟨e | v, u⟩
  · rw [bind_error hc, bind_error ((runCleanups_single a t).trans hc)]
  · rw [bind_ok hc, bind_ok ((runCleanups_single a t).trans hc)]

end Workspace

namespace Pipeline

variable {s : Settings} {t : Site}

/-- A run up to where its workspace is left: the workspace, and how the stages ended. -/
def inside (s : Settings) : Act (Workspace × Ended String) := do
  Series.put Series.empty
  let a ← Act.ofExcept (assembler s)
  let w ← workspace s
  w.enter
  return (w, ← stages w a (.start s))

/-- The stages never end with a fault of their own. -/
theorem stages_ends (w : Workspace) (a : Assembler) (s : Settings) (t : Site) :
    ∃ p r u, stages w a (.start s) h t = (.ok (p, r), u) := by
  obtain ⟨e, p, u, -, hr⟩ | ⟨v, u, -, hr⟩ := stages_follows w a s t (h := h)
  · exact ⟨p, .error e, u, hr⟩
  · rcases hf : finish v.progress v.module v.undefined h u with ⟨e | output, u'⟩
    · exact ⟨_, _, u', hr.trans (step_error hf)⟩
    · exact ⟨_, _, u', hr.trans (step_ok hf)⟩

/-- A run is what happens inside its workspace, and the leaving of the workspace. -/
theorem run_eq (s : Settings) (t : Site) : run s h t = match inside s h t with
    | (.error e, u) => (.ok (.start s, .error e), u)
    | (.ok (w, p, r), u) => match w.leave [Series.revertAll] (isFault r) h u with
      | (.error e, u') => (.ok (p, .error e), u')
      | (.ok _, u') => (.ok (p, r), u') := by
  let t₀ : Site := { t with series := Series.empty }
  have hput : Series.put Series.empty h t = (.ok (), t₀) := rfl
  rw [run, inside, bind_ok hput, bind_ok hput]
  rcases ha : assembler s with e | a
  · rw [step_error (ofExcept_apply h t₀ _), bind_error (ofExcept_apply h t₀ _)]
  · rw [step_ok (ofExcept_apply h t₀ _), bind_ok (ofExcept_apply h t₀ _)]
    rcases hw : workspace s h t₀ with ⟨e | w, t₁⟩
    · rw [step_error hw, bind_error hw]
    · rw [step_ok hw, bind_ok hw]
      rcases hn : w.enter h t₁ with ⟨e | _, t₂⟩
      · have : runIn w a (.start s) h t₁ = (.error e, t₂) := by rw [runIn, bind_error hn]
        rw [step_error this, bind_error hn]
      · obtain ⟨p, r, u, hs⟩ := stages_ends w a s t₂ (h := h)
        rw [bind_ok hn, bind_ok hs]
        have hin : runIn w a (.start s) h t₁ = (match w.leave [Series.revertAll] (isFault r) h u with
            | (.error e, u') => (.ok (p, .error e), u')
            | (.ok _, u') => (.ok (p, r), u')) := by
          rw [runIn, bind_ok hn, bind_ok hs]
          dsimp only
          rw [bind_ok (attempt_apply h u _)]
          rcases w.leave [Series.revertAll] (isFault r) h u with ⟨e | _, u'⟩ <;> rfl
        rcases hl : w.leave [Series.revertAll] (isFault r) h u with ⟨e | x, u'⟩
        · rw [hl] at hin
          rw [step_ok hin]
          simp [pure_apply, hl]
        · rw [hl] at hin
          rw [step_ok hin]
          simp [pure_apply, hl]

end Pipeline

end Hotpatch
