import Hotpatch.Proofs.Build.Harvest
import Hotpatch.Proofs.Patch.Atomic
import Hotpatch.Proofs.Patch.Session
import Hotpatch.Proofs.Pipeline.Builds

/-! Collecting objects borrows the patch series: the patches go in for one build and come out again.
However the work ends, the series is given back as it was taken, as far as the patch tool and git go
along; and the work between ends with its own fault. -/

namespace Hotpatch

open Act

namespace Series

variable {h : Host} {t t₁ t₂ u v : Site} {new mid out : List Event} {r : Except Fault Unit}

/-- No start of the patch tool or of git was refused. -/
def Served (new : List Event) : Prop := ∀ e ∈ new, e.isOfSeries = true → e.isRefused = false

theorem Served.subset (hn : Served new) (hsub : out ⊆ new) : Served out :=
  fun e he => hn e (hsub he)

/-- What the work leaves of a series that it took. The patches may stay in only where a tool was not
started, or where the path of a patch behind the first is too long to be looked up. -/
structure GivenBack (t u : Site) (new : List Event) : Prop where
  atRest : AtRest u
  events : u.events = new ++ t.events
  patches : u.series.patches = t.series.patches
  back : Served new → (∀ p ∈ t.series.patches.tail, ¬ Disk.Overlong p) →
    u.series.count = 0 ∧ u.series.phase ≠ .applied

/-- Work that uses no patch. -/
abbrev Apart (t u : Site) : Prop := Since (fun e => e.patchStart? = none) t u

theorem Apart.atRest (hs : Apart t u) (ht : AtRest t) : AtRest u := by
  obtain ⟨hseries, new, he, hn⟩ := hs
  exact ht.of_unused hseries he hn

/-- The series is taken only after other work. -/
theorem GivenBack.after (hs : Apart t t₁) (hb : GivenBack t₁ u new) :
    ∃ before, GivenBack t u (new ++ before) := by
  obtain ⟨hseries, before, he, -⟩ := hs
  refine ⟨before, hb.atRest, ?_, by rw [hb.patches, hseries], fun hserved hshort => ?_⟩
  · rw [hb.events, he, List.append_assoc]
  · rw [← hseries] at hshort
    exact hb.back (hserved.subset (List.subset_append_left _ _)) hshort

/-- Other work is done when the series is given back already. -/
theorem GivenBack.then (hb : GivenBack t u new) (hs : Apart u v) :
    ∃ after, GivenBack t v (after ++ new) := by
  have hrest := hs.atRest hb.atRest
  obtain ⟨hseries, after, he, -⟩ := hs
  refine ⟨after, hrest, ?_, by rw [hseries, hb.patches], fun hserved hshort => ?_⟩
  · rw [he, hb.events, List.append_assoc]
  · rw [hseries]
    exact hb.back (hserved.subset (List.subset_append_right _ _)) hshort

theorem GivenBack.of_same (hb : GivenBack t u new) (hs : v.series = u.series)
    (he : v.events = u.events) : GivenBack t v new :=
  ⟨hb.atRest.of_same hs he, he.trans hb.events, by rw [hs, hb.patches], by rw [hs]; exact hb.back⟩

/-- All that the series needs goes well: its tools are started, git shows its output when it fails, and
no path of the series is too long to be looked up. -/
structure Smooth (s : Series) (new : List Event) : Prop where
  served : Served new
  told : ∀ o, .ran (refreshing s.source) (.ok o) ∈ new → o.status ≠ 0 → o.output ≠ none
  short : ∀ p, p ∈ s.patches ∨ p = under s.source ".git" → ¬ Disk.Overlong p

theorem Smooth.subset {s : Series} (hs : Smooth s new) (hsub : out ⊆ new) : Smooth s out :=
  ⟨hs.served.subset hsub, fun o ho => hs.told o (hsub ho), hs.short⟩

end Series

section Building

variable {h : Host} {I : Site → Prop} {b : Differential}

namespace Robust

open Differential

variable (hI : Robust h (fun _ => True) (fun _ => True) I)
include hI

theorem fingerprinted (tree : String) : Keeps h I (Fingerprints.snapshot tree) :=
  (hI.snapshot tree).leads (fun _ _ => And.right) fun _ => id

variable (hl : ∀ argv v, Keeps h I (Tool.launch ⟨argv, some b.tree, .streamed v⟩))
include hl

/-- A build keeps what its start keeps. -/
theorem pass (stage : String) (instrumented : Bool) : Keeps h I (b.pass stage instrumented) := by
  have build : Keeps h I (b.make.build b.tree b.targets b.jobs (environment instrumented) b.extra) :=
    (Keeps.ofExcept _).bind fun _ => hI.run (hl _ _)
  have core : Keeps h I b.preserveCore := hI.preserveCore fun _ _ _ => within_true _
  refine build.bind fun r => ?_
  have judged : Keeps h I (do
      if r.succeeded then return r
      Act.fail (.build (stage ++ " failed with status " ++ toString r.status)) : Act Command.Result) := by
    split
    · exact .pure _
    · exact .fail _
  dsimp only
  split
  · exact core.bind fun _ => (Keeps.fail _).bind fun _ => judged
  · exact judged

theorem baseline : Keeps h I b.baseline :=
  (hI.info _ _).bind fun _ => (hI.pass hl _ _).bind fun _ => hI.fingerprinted _

theorem buildPatched (B : Fingerprints) : Keeps h I (b.buildPatched B) := by
  refine (hI.info _ _).bind fun _ => (hI.pass hl _ _).bind fun r => ?_
  refine (hI.fingerprinted _).bind fun after => ?_
  dsimp only
  exact Keeps.guard (.fail _) fun _ => (hI.stageAll _ fun _ _ => within_true _).bind fun _ => .pure _

theorem restore (B : Fingerprints) (changed : List String) : Keeps h I (b.restore B changed) := by
  rw [Differential.restore]
  split
  · exact .pure _
  · refine (hI.info _ _).bind fun _ => (hI.pass hl _ _).bind fun _ => ?_
    exact (hI.fingerprinted _).bind fun _ => hI.stageOriginals _ _ _ fun _ _ => within_true _

end Robust

end Building

namespace Differential

open Series

variable {b : Differential} {h : Host} {t u : Site} {known : Option Fingerprints}

section Apart

theorem robust_apart (t : Site) : Robust h (fun _ => True) (fun _ => True) (Apart t) :=
  since_robust (fun _ he => (aside_mark he).1) (fun _ _ => patchUse?_loose) t

theorem launch_apart (t : Site) (argv : List String) (v : List (String × String)) :
    Keeps h (Apart t) (Tool.launch ⟨argv, some b.tree, .streamed v⟩) :=
  since_launch fun _ => patchUse?_streamed rfl

theorem baseline_apart (t : Site) : Keeps h (Apart t) b.baseline :=
  (robust_apart t).baseline (launch_apart t)

theorem buildPatched_apart (B : Fingerprints) (t : Site) : Keeps h (Apart t) (b.buildPatched B) :=
  (robust_apart t).buildPatched (launch_apart t) B

/-- The directories that the objects are collected in. -/
def makeRoom (b : Differential) : Act Unit := do
  let _ ← Staging.ensureDirectory b.original
  let _ ← Staging.ensureDirectory b.patched

theorem makeRoom_apart (t : Site) : Keeps h (Apart t) b.makeRoom :=
  ((robust_apart t).ensureDirectory _).bind fun _ =>
    ((robust_apart t).ensureDirectory _).bind fun _ => .pure _

/-- The work up to where they are out again. -/
def collecting (b : Differential) (B : Fingerprints) : Act (List String × Fingerprints.Comparison) := do
  b.makeRoom
  Series.during (b.buildPatched B)

/-- What comes behind the patches. -/
def concluding (b : Differential) (B : Fingerprints) (x : List String × Fingerprints.Comparison) :
    Act Harvest := do
  b.restore B x.2.changed
  announce x.1 x.2
  return ⟨objectsOf x.2, x.1, b.original, b.patched⟩

theorem concluding_apart (B : Fingerprints) (x : List String × Fingerprints.Comparison) (t : Site) :
    Keeps h (Apart t) (b.concluding B x) :=
  ((robust_apart t).restore (launch_apart t) B _).bind fun _ =>
    ((robust_apart t).announce _ _).bind fun _ => .pure _

theorem instrumented_eq (b : Differential) (B : Fingerprints) :
    b.instrumented (some B) = b.collecting B >>= b.concluding B := by
  simp only [instrumented, collecting, makeRoom, bind_assoc, pure_bind]
  rfl

end Apart

/-- What may have come before: builds without patches, some work that borrowed the series, and whatever
else was asked of it. The fingerprints are those of the last build without patches that succeeded. -/
inductive Reached (b : Differential) (h : Host) : Option Fingerprints → Site → Prop
  | fresh {t : Site} {cwd tree : String} {patches : List String} :
      t.series = ofPatches cwd tree patches → (∀ e ∈ t.events, e.patchStart? = none) →
        Reached b h none t
  | built {t : Site} {known : Option Fingerprints} : Reached b h known t →
      Reached b h ((b.baseline h t).1.toOption.or known) (b.baseline h t).2
  | collected {t : Site} {known : Option Fingerprints} : Reached b h known t →
      Reached b h known (b.instrumented known h t).2
  | asked {t : Site} {known : Option Fingerprints} (q : Request) : Reached b h known t →
      Reached b h known (q.perform h t).2

theorem instrumented_idle (h : Host) (patches : List String) (known : Option Fingerprints) :
    Keeps h (Idle patches) (b.instrumented known) := by
  have idle : ∀ {α : Type} {a : Act α}, (∀ t, Keeps h (Apart t) a) → Keeps h (Idle patches) a := by
    intro α a ha t ht
    have hs : Apart t (a h t).2 := ha t t (.refl _ t)
    exact ⟨hs.atRest ht.toAtRest, by rw [hs.1, ht.patches_eq]⟩
  cases known with
  | none => exact .fail _
  | some B =>
    rw [instrumented_eq]
    have hduring : Keeps h (Idle patches) (during (b.buildPatched B)) :=
      during_idle (idle (buildPatched_apart B))
    exact ((idle makeRoom_apart).bind fun _ => hduring).bind fun x => idle (concluding_apart B x)

theorem Reached.atRest (hr : Reached b h known t) : AtRest t := by
  induction hr with
  | fresh hs hn => exact .pending hn (by rw [hs]; rfl) (by rw [hs]; rfl)
  | @built t known _ ih => exact Apart.atRest (baseline_apart t t (.refl _ t)) ih
  | @collected t known _ ih => exact (instrumented_idle h t.series.patches known t ⟨ih, rfl⟩).toAtRest
  | @asked t known q _ ih => exact (Request.perform_idle h t.series.patches q t ⟨ih, rfl⟩).toAtRest

end Differential

end Hotpatch
