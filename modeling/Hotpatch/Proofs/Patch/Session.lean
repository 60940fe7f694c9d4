import Hotpatch.Host.Script
import Hotpatch.Proofs.Patch.Operations

/-! Whatever is asked of a series, and in whatever order, the patches go in and come out as on a
stack. What may be asked is put in and taken out, together or around a block in which more is asked;
every request may fail, and the next one comes all the same. -/

namespace Hotpatch.Series

open Act

/-- What may be asked of a series. Between two requests other tools may run. -/
inductive Request where
  | apply
  | revertAll
  | tool (start : Start) (other : start.patchUse? = none)
  /-- While the series is applied, more is asked; then the block ends well or with a fault. -/
  | block (body : List Request) (ending : Except Fault Unit)

mutual

def Request.perform : Request → Act Unit
  | .apply => apply
  | .revertAll => revertAll
  | .tool start _ => do let _ ← Tool.start start
  | .block body ending => during do
      performAll body
      Act.ofExcept ending

/-- One request after another, however each of them ends. -/
def performAll : List Request → Act Unit
  | [] => return
  | q :: qs => do
    let _ ← attempt q.perform
    performAll qs

end

variable {h : Host} {t t' : Site}

/-- A series of the given patches at rest. -/
structure Idle (patches : List String) (t : Site) : Prop extends AtRest t where
  patches_eq : t.series.patches = patches

section Requests

variable {patches : List String} {new : List Event}

theorem Idle.advance (ht : Idle patches t) (hr : AtRest t') (ha : Advance t t' new) :
    Idle patches t' :=
  ⟨hr, ha.patches.trans ht.patches_eq⟩

theorem apply_idle (h : Host) (patches : List String) : Keeps h (Idle patches) apply := by
  intro t ht
  obtain ⟨r, t', new, hrun, hr⟩ := apply_raises h ht.toAtRest
  rw [hrun]
  exact ht.advance hr.atRest hr.advance

theorem revertAll_idle (h : Host) (patches : List String) : Keeps h (Idle patches) revertAll := by
  intro t ht
  obtain ⟨r, t', new, hrun, hr⟩ := revertAll_empties h ht.toAtRest
  rw [hrun]
  exact ht.advance hr.atRest hr.advance

theorem revertAfter_idle {α : Type} (h : Host) (patches : List String) (cause : Fault) :
    Keeps h (Idle patches) (revertAfter cause : Act α) := by
  intro t ht
  obtain ⟨e, t', new, hrun, hr, ha⟩ := revertAfter_fails α h cause ht.toAtRest
  rw [hrun]
  exact ht.advance hr ha

/-- A block keeps what its body keeps. -/
theorem during_idle {α : Type} {body : Act α} (hb : Keeps h (Idle patches) body) :
    Keeps h (Idle patches) (during body) := by
  refine (apply_idle h patches).bind fun _ => hb.attempt.bind fun r => ?_
  cases r with
  | error e => exact revertAfter_idle h patches e
  | ok a => exact (revertAll_idle h patches).bind fun _ => .pure _

theorem start_idle {s : Start} (hs : s.patchUse? = none) :
    Keeps h (Idle patches) (Tool.start s) := by
  have launched : Keeps h (Idle patches) (Tool.launch s) := by
    intro t ht
    have hevents : (Tool.launch s h t).2.events =
        [.ran s (h.react t.events s t.disk).ending] ++ t.events := rfl
    refine ⟨ht.toAtRest.of_unused rfl hevents fun e he => ?_, ht.patches_eq⟩
    rw [List.mem_singleton.1 he]
    exact hs
  refine launched.bind fun r => ?_
  cases r with
  | error r => exact .throw _
  | ok o => exact .pure _

mutual

theorem Request.perform_idle (h : Host) (patches : List String) :
    ∀ q : Request, Keeps h (Idle patches) q.perform
  | .apply => by
    rw [Request.perform]
    exact apply_idle h patches
  | .revertAll => by
    rw [Request.perform]
    exact revertAll_idle h patches
  | .tool start other => by
    rw [Request.perform]
    exact (start_idle other).bind fun _ => .pure _
  | .block body ending => by
    rw [Request.perform]
    exact during_idle ((performAll_idle h patches body).bind fun _ => Keeps.ofExcept ending)

theorem performAll_idle (h : Host) (patches : List String) :
    ∀ qs : List Request, Keeps h (Idle patches) (performAll qs)
  | [] => by
    rw [performAll]
    exact .pure _
  | q :: qs => by
    rw [performAll]
    exact (Request.perform_idle h patches q).attempt.bind fun _ => performAll_idle h patches qs

end

end Requests

/-- Two patches. The operator interrupts the run as the second one is taken out again. -/
def Interrupted.host : Host :=
  { cwd := ["work"], home := "/root", machine := "x86_64", cpus := none, environment := []
    hasTool := fun _ => true
    react := Script.react [("patch", [.quiet, .quiet, .quiet, .quiet,
      { Script.Step.quiet with refusal := some .interrupted }])] ["work"] }

def Interrupted.site : Site :=
  { disk := ⟨[(["work"], .dir), (["work", "a.patch"], .file ⟨[], 0, 0⟩),
      (["work", "b.patch"], .file ⟨[], 0, 1⟩)], 2⟩
    events := [], records := [], sinks := [], console := []
    series := ofPatches "/work" "linux" ["a.patch", "b.patch"] }

end Hotpatch.Series
