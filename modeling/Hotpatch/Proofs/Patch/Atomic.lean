import Hotpatch.Host.Script
import Hotpatch.Proofs.Patch.Operations

/-! Putting a series in is all or nothing, as far as the tools go along. What was put in and not taken out
again is what counts as applied, so whatever a fault leaves in can be taken out later. And where a block
ends with a fault while the series is in, this fault goes on unless taking the patches out lapses. -/

namespace Hotpatch.Series

open Act

variable {h : Host} {t t' t₁ t₂ u : Site} {new : List Event} {e : Fault}

/-- What went in on the way up counts as applied. -/
theorem Ascent.applied (ha : Ascent t t' new) (ht : AtRest t) (h0 : t.series.count = 0) :
    applications new = t'.series.appliedPatches := by
  have hstack := stack_of_applications t.events ha.kept
  rw [← ha.advance.events, ha.atRest.stack_eq, ht.stack_nil h0, List.append_nil] at hstack
  exact (List.reverse_inj.1 hstack).symm

/-- What comes out counts as applied before, and what is left still does. -/
theorem Emptied.removed {r : Except Fault Unit} (he : Emptied t u new r) (ht : AtRest t) :
    t.series.appliedPatches.reverse = reverts new ++ u.series.appliedPatches.reverse := by
  have ho : Orderly u.series.patches (new ++ t.events) := he.advance.events ▸ he.atRest.orderly
  have hstack := stack_of_reverts ho he.only
  rwa [← he.advance.events, ht.stack_eq, he.atRest.stack_eq] at hstack

theorem appliedPatches_nil {s : Series} (h0 : s.count = 0) : s.appliedPatches = [] := by
  rw [appliedPatches, h0, List.take_zero]

/-- How putting the whole series in ends: all patches are in; or a patch is told to be in the way, and
everything came out in reverse; or there was a lapse, and what is left in counts as applied. -/
inductive Ended (t u : Site) (new : List Event) : Except Fault Unit → Prop
  | applied : u.series.phase = .applied → applications new = t.series.patches → reverts new = [] →
      Ended t u new (.ok ())
  | undone {p why : String} : u.series.count = 0 → u.series.phase ≠ .applied →
      applications new <+: t.series.patches → reverts new = (applications new).reverse →
      Ended t u new (.error (.failure (.patch p why)))
  | lapsed {e : Fault} : Lapse t.series new e → u.series.count = 0 ∨ u.series.phase = .applied →
      applications new <+: t.series.patches →
      applications new = u.series.appliedPatches ++ (reverts new).reverse →
      Ended t u new (.error e)

theorem Emptied.ended {r : Except Fault Unit} {out : List Event} {p why : String} (ht : AtRest t)
    (h0 : t.series.count = 0) (ha : Ascent t t' new) (he : Emptied t' u out r) :
    Ended t u (out ++ new) (.error (surrender p why r)) := by
  have hin : applications (out ++ new) = t'.series.appliedPatches := by
    rw [applications_append, he.only, List.append_nil, ha.applied ht h0]
  have hout : reverts (out ++ new) = reverts out := by
    rw [reverts_append, ha.kept, List.nil_append]
  have hprefix : applications (out ++ new) <+: t.series.patches := by
    rw [hin, ← ha.advance.patches]
    exact appliedPatches_prefix _
  have hback := he.removed ha.atRest
  have hundone : u.series.count = 0 → reverts (out ++ new) = (applications (out ++ new)).reverse := by
    intro hc
    rw [hin, hout, hback, appliedPatches_nil hc, List.reverse_nil, List.append_nil]
  rcases r with e | _
  · obtain ⟨p, rfl⟩ | hl := he.fault e rfl
    · obtain ⟨hc, hphase⟩ := he.failed _ rfl
      exact .undone hc hphase hprefix (hundone hc)
    · refine .lapsed ?_ ?_ hprefix ?_
      · exact hl.mono ha.advance.source.symm ha.advance.patches.symm (List.subset_append_left _ _)
      · exact (Nat.eq_zero_or_pos u.series.count).imp_right he.atRest.applied
      · rw [hin, hout, ← List.reverse_inj, hback]
        simp
  · obtain ⟨hc, hphase, -⟩ := he.ok rfl
    exact .undone hc hphase hprefix (hundone hc)

/-- Two patches. The patch tool can't be found the third time it is started. -/
def Missing.host : Host :=
  { cwd := ["work"], home := "/root", machine := "x86_64", cpus := none, environment := []
    hasTool := fun _ => true
    react := Script.react [("patch", [.quiet, .quiet,
      { Script.Step.quiet with refusal := some .notFound }])] ["work"] }

def Missing.site : Site :=
  { disk := ⟨[(["work"], .dir), (["work", "a.patch"], .file ⟨[], 0, 0⟩),
      (["work", "b.patch"], .file ⟨[], 0, 1⟩)], 2⟩
    events := [], records := [], sinks := [], console := []
    series := ofPatches "/work" "linux" ["a.patch", "b.patch"] }

/-- The same with the first patch alone. -/
def Missing.alone : Site :=
  { Missing.site with series := ofPatches "/work" "linux" ["a.patch"] }

end Hotpatch.Series
