import Hotpatch.Build.Differential
import Hotpatch.Proofs.Sturdy

/-! The work of collecting objects, where it comes to an end: what each part went through. What is
taken out of it is the passes, and the work before each snapshot. -/

namespace Hotpatch

open Act Series

namespace Differential

variable {b : Differential} {h : Host} {t t' : Site}

/-- A pass as the log announces it. -/
def announced (b : Differential) (message stage : String) (instrumented : Bool) : Act Unit := do
  Log.info source message
  let _ ← b.pass stage instrumented

def building (b : Differential) : Act Unit :=
  b.announced "Building patched source" "patched build" true

def rebuilding (b : Differential) : Act Unit :=
  b.announced "Restoring original objects" "original rebuild" false

/-- The work before the fingerprints of the patched build are taken. -/
def untilPatched (b : Differential) : Act Unit := do
  let _ ← Staging.ensureDirectory b.original
  let _ ← Staging.ensureDirectory b.patched
  Series.apply
  b.building

/-- The work before the originals are collected. -/
def untilRestored (b : Differential) (before : Fingerprints) : Act Unit := do
  let _ ← Staging.ensureDirectory b.original
  let _ ← Staging.ensureDirectory b.patched
  let _ ← Series.during (b.buildPatched before)
  b.rebuilding

theorem pass_of_ok {stage : String} {i : Bool} {r : Command.Result}
    (hr : b.pass stage i h t = (.ok r, t')) :
    b.make.build b.tree b.targets b.jobs (environment i) b.extra h t = (.ok r, t') := by
  rw [pass] at hr
  obtain ⟨r', t₁, hbuild, hr⟩ := bind_of_ok hr
  dsimp only at hr
  split at hr
  · obtain ⟨_, t₂, -, hr⟩ := bind_of_ok hr
    obtain ⟨_, t₃, hfail, -⟩ := bind_of_ok hr
    cases hfail
  · split at hr
    · obtain ⟨rfl, rfl⟩ := pure_of_ok hr
      exact hbuild
    · cases hr

/-- A pass that succeeds keeps what every tool keeps. -/
theorem pass_keeps {I : Site → Prop} (hI : Lasting h I) {stage : String} {i : Bool}
    {r : Command.Result} (ht : I t) (hr : b.pass stage i h t = (.ok r, t')) : I t' := by
  have build : Keeps h I (b.make.build b.tree b.targets b.jobs (environment i) b.extra) :=
    (Keeps.ofExcept _).bind fun _ => hI.run (hI.launchAny _)
  exact build.eq ht (pass_of_ok hr)

theorem announced_keeps {I : Site → Prop} (hI : Lasting h I) {message stage : String} {i : Bool}
    {v : Unit} (ht : I t) (hr : b.announced message stage i h t = (.ok v, t')) : I t' := by
  rw [announced] at hr
  obtain ⟨_, t₁, hinfo, hr⟩ := bind_of_ok hr
  obtain ⟨_, t₂, hpass, hr⟩ := bind_of_ok hr
  obtain ⟨-, rfl⟩ := pure_of_ok hr
  exact pass_keeps hI ((hI.info _ _).eq ht hinfo) hpass

theorem snapshot_of_ok {tree : String} {P : Fingerprints}
    (hr : Fingerprints.snapshot tree h t = (.ok P, t')) :
    Fingerprints.ofTree t.disk h.cwd tree = .ok P ∧ ∃ r, t' = (Log.emit r h t).2 := by
  rw [Fingerprints.snapshot] at hr
  obtain ⟨P', t₁, hq, hrest⟩ := bind_of_ok hr
  obtain ⟨rfl, hP⟩ := query_of_ok hq
  obtain ⟨_, t₂, hdebug, hlast⟩ := bind_of_ok hrest
  obtain ⟨rfl, rfl⟩ := pure_of_ok hlast
  exact ⟨hP, _, (congrArg Prod.snd hdebug).symm⟩

theorem revertAfter_ne_ok {α : Type} {cause : Fault} {a : α} :
    (revertAfter cause : Act α) h t ≠ (.ok a, t') := by
  intro hr
  rw [revertAfter] at hr
  obtain ⟨r, t₁, -, hr⟩ := bind_of_ok hr
  dsimp only at hr
  split at hr
  · obtain ⟨_, t₂, -, hr⟩ := bind_of_ok hr
    cases hr
  · obtain ⟨_, t₂, hthrow, -⟩ := bind_of_ok hr
    cases hthrow
  · cases hr

theorem during_of_ok {α : Type} {body : Act α} {a : α} (hr : during body h t = (.ok a, t')) :
    ∃ u u' t₁ t₂, apply h t = (.ok u, t₁) ∧ body h t₁ = (.ok a, t₂) ∧
      revertAll h t₂ = (.ok u', t') := by
  rw [during] at hr
  obtain ⟨u, t₁, happly, hr⟩ := bind_of_ok hr
  obtain ⟨r, t₂, hbody, hr⟩ := bind_of_ok hr
  rw [attempt_apply] at hbody
  obtain ⟨hval, hsite⟩ := Prod.mk.inj hbody
  rcases r with e | a'
  · exact absurd hr revertAfter_ne_ok
  · obtain ⟨u', t₃, hrevert, hr⟩ := bind_of_ok hr
    obtain ⟨rfl, rfl⟩ := pure_of_ok hr
    exact ⟨u, u', t₁, t₂, happly, Prod.ext (Except.ok.inj hval) hsite, hrevert⟩

theorem buildPatched_of_ok {B : Fingerprints} {r : List String × Fingerprints.Comparison}
    (hr : b.buildPatched B h t = (.ok r, t')) : ∃ P t₁ t₂ v,
      b.building h t = (.ok (), t₁) ∧ Fingerprints.snapshot b.tree h t₁ = (.ok P, t₂) ∧
        r.2 = Fingerprints.compare B P ∧
          b.stageAll b.patched (r.2.changed ++ r.2.new) h t₂ = (.ok v, t') := by
  rw [buildPatched] at hr
  obtain ⟨u, t₁, hinfo, hr⟩ := bind_of_ok hr
  obtain ⟨o, t₂, hpass, hr⟩ := bind_of_ok hr
  obtain ⟨P, t₃, hsnapshot, hr⟩ := bind_of_ok hr
  have hbuilding : b.building h t = (.ok (), t₂) := by
    rw [building, announced, bind_ok hinfo, bind_ok hpass]
    rfl
  dsimp only at hr
  split at hr
  · obtain ⟨_, t₄, hfail, -⟩ := bind_of_ok hr
    cases hfail
  · obtain ⟨v, t₄, hstage, hr⟩ := bind_of_ok hr
    obtain ⟨rfl, rfl⟩ := pure_of_ok hr
    exact ⟨P, t₂, t₃, v, hbuilding, hsnapshot, rfl, hstage⟩

theorem restore_of_ok {B : Fingerprints} {changed : List String} {v : Unit}
    (hr : b.restore B changed h t = (.ok v, t')) : changed = [] ∧ t' = t ∨ ∃ R t₁ t₂ v',
      b.rebuilding h t = (.ok (), t₁) ∧ Fingerprints.snapshot b.tree h t₁ = (.ok R, t₂) ∧
        b.stageOriginals B R changed h t₂ = (.ok v', t') := by
  rw [restore] at hr
  split at hr
  · next hempty => exact .inl ⟨List.isEmpty_iff.1 hempty, (pure_of_ok hr).2⟩
  · obtain ⟨u, t₁, hinfo, hr⟩ := bind_of_ok hr
    obtain ⟨o, t₂, hpass, hr⟩ := bind_of_ok hr
    obtain ⟨R, t₃, hsnapshot, hr⟩ := bind_of_ok hr
    have hrebuilding : b.rebuilding h t = (.ok (), t₂) := by
      rw [rebuilding, announced, bind_ok hinfo, bind_ok hpass]
      rfl
    exact .inr ⟨R, t₂, t₃, v, hrebuilding, hsnapshot, hr⟩

/-- The warning that a rebuilt object is not as it was. -/
def differing (p : String) : Log.Record :=
  ⟨source, .warning, p ++ " differs from the original build after restoring it"⟩

theorem stageOriginals_of_ok {before restored : Fingerprints} {p : String} {ps : List String}
    {v : Unit} (hr : b.stageOriginals before restored (p :: ps) h t = (.ok v, t')) : ∃ t₁ t₂ s,
      (t₁ = t ∧ restored.lookup p = before.lookup p ∨ t₁ = (Log.emit (differing p) h t).2) ∧
        Staging.stage b.tree p b.original h t₁ = (.ok s, t₂) ∧
          b.stageOriginals before restored ps h t₂ = (.ok v, t') := by
  rw [stageOriginals] at hr
  dsimp only at hr
  split at hr
  · obtain ⟨_, t₁, hwarning, hr⟩ := bind_of_ok hr
    obtain ⟨s, t₂, hstage, hr⟩ := bind_of_ok hr
    exact ⟨t₁, t₂, s, .inr (congrArg Prod.snd hwarning).symm, hstage, hr⟩
  · next hsame =>
    obtain ⟨s, t₂, hstage, hr⟩ := bind_of_ok hr
    exact ⟨t, t₂, s, .inl ⟨rfl, not_not.1 hsame⟩, hstage, hr⟩

/-- All parts of the work, and the sites that the two stretches of it before a snapshot lead to. -/
theorem instrumented_of_ok {B : Fingerprints} {v : Harvest}
    (hr : b.instrumented (some B) h t = (.ok v, t')) :
    ∃ t₁ t₂ t₃ t₄ t₅ t₆ v₁ v₂ v₃ v₅ v₆ v₇, ∃ r : List String × Fingerprints.Comparison,
      v = ⟨objectsOf r.2, r.1, b.original, b.patched⟩ ∧
      Staging.ensureDirectory b.original h t = (.ok v₁, t₁) ∧
      Staging.ensureDirectory b.patched h t₁ = (.ok v₂, t₂) ∧
      Series.apply h t₂ = (.ok v₃, t₃) ∧
      b.buildPatched B h t₃ = (.ok r, t₄) ∧ (b.untilPatched h t).2 = (b.building h t₃).2 ∧
      Series.revertAll h t₄ = (.ok v₅, t₅) ∧
      b.restore B r.2.changed h t₅ = (.ok v₆, t₆) ∧
        (b.untilRestored B h t).2 = (b.rebuilding h t₅).2 ∧
      announce r.1 r.2 h t₆ = (.ok v₇, t') := by
  rw [instrumented] at hr
  obtain ⟨v₁, t₁, h₁, hr⟩ := bind_of_ok hr
  obtain ⟨v₂, t₂, h₂, hr⟩ := bind_of_ok hr
  obtain ⟨r, t₅, hduring, hr⟩ := bind_of_ok hr
  obtain ⟨v₆, t₆, hrestore, hr⟩ := bind_of_ok hr
  obtain ⟨v₇, t₇, hannounce, hr⟩ := bind_of_ok hr
  obtain ⟨hv, rfl⟩ := pure_of_ok hr
  obtain ⟨v₃, v₅, t₃, t₄, happly, hbuild, hrevert⟩ := during_of_ok hduring
  refine ⟨t₁, t₂, t₃, t₄, t₅, t₆, v₁, v₂, v₃, v₅, v₆, v₇, r, hv, h₁, h₂, happly, hbuild, ?_, hrevert,
    hrestore, ?_, hannounce⟩
  · rw [untilPatched, bind_ok h₁, bind_ok h₂, bind_ok happly]
  · rw [untilRestored, bind_ok h₁, bind_ok h₂, bind_ok hduring]

end Differential

end Hotpatch
