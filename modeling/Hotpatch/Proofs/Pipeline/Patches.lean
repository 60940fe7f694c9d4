import Hotpatch.Host.Script
import Hotpatch.Proofs.Layout
import Hotpatch.Proofs.Pipeline.Run

/-! The patches over a whole run. Every build sees the tree it is meant to see, and at the end no
patch is in the tree, unless a revert failed or could not be started on the way out. -/

namespace Hotpatch.Pipeline

open Act Series

variable {h : Host} {s : Settings} {t t' : Site} {new : List Event} {I : Site → Prop}

theorem Traced.aside (ht : Traced h s t) (ha : Aside t t') : Traced h s t' := by
  obtain ⟨sched, hp, ht⟩ := ht
  exact ⟨sched, hp, ht.aside ha⟩

/-- Leaving the workspace takes the patches out, unless a start is refused. -/
theorem leave_empties (w : Workspace) (failed : Bool) (ht : AtRest t) : ∃ r t' new,
    w.leave [Series.revertAll] failed h t = (r, t') ∧ AtRest t' ∧ Advance t t' new ∧
      ((∀ e ∈ new, e.isRefused = false) → t'.series.count = 0) := by
  obtain ⟨r, u, new, hrun, hempty⟩ := revertAll_empties h ht
  have rest : Keeps h (Quiet u) (Workspace.conclude r >>= w.release failed : Act Unit) :=
    (Workspace.quiet_conclude r).bind fun _ => Workspace.quiet_release _ _
  rcases hr : w.leave [Series.revertAll] failed h t with ⟨r', t'⟩
  have hq : Quiet u t' := by
    rw [Workspace.leave_single, hrun] at hr
    exact rest.eq ⟨rfl, rfl⟩ hr
  refine ⟨r', t', new, rfl, hempty.atRest.of_same hq.1 hq.2, ?_, fun hn => ?_⟩
  · exact hempty.advance.trans (.of_same hq.1 hq.2)
  · rw [hq.1]
    exact hempty.calm hn

section Sturdy

variable (hI : Sturdy h (fun _ => True) (fun _ => True) I) (hq : ∀ t t', I t → Quiet t t' → I t')
include hI

theorem stages_traced (w : Workspace) (a : Assembler) :
    Leads h (fun t => Fresh t ∧ I t) (fun t => Traced h s t ∧ I t) (stages w a (.start s)) := by
  intro t ht
  have hprep := prepared_yields hI (owned_all h _ s w) (a := a)
  have hT : Robust h (fun _ => True) _ fun t => Traced h s t ∧ I t :=
    hI.toRobust.beside fun _ _ => Traced.aside
  obtain ⟨e, p, u, he, hr⟩ | ⟨v, u, hv, hr⟩ := stages_follows w a s t (h := h)
  · rw [hr]
    exact hprep.error ht he
  · obtain ⟨ps, bs, hfind, hp, hi⟩ := hprep.ok ht hv
    obtain ⟨tree, hv', -, hs, -⟩ := hfind.harvest
    have hu : Traced h s u := ⟨_, .inr ⟨tree, w, ps, hfind.patches, rfl⟩, hp.scheduled hs⟩
    have hfin := hT.finish (p := v.progress) (m := v.module)
      (fun _ _ => ⟨trivial, fun _ _ => trivial⟩) v.undefined
    rw [hr]
    dsimp only
    rcases hf : finish v.progress v.module v.undefined h u with ⟨e | output, u'⟩
    · rw [step_error hf]
      exact hfin.eq ⟨hu, hi⟩ hf
    · rw [step_ok hf]
      exact hfin.eq ⟨hu, hi⟩ hf

include hq

/-- A run that has just been started keeps to the plan up to where its workspace is left; one that
gets no workspace doesn't touch the patches. -/
theorem inside_yields : Yields h (fun t => t.events = [] ∧ I t) (inside s)
    (fun _ t => Traced h s t ∧ I t) fun t => Fresh t ∧ I t := by
  have hfresh : Leads h (fun t => t.events = [] ∧ I t) (fun t => Fresh t ∧ I t)
      (Series.put Series.empty) := by
    rintro t ⟨ht, hi⟩
    refine ⟨⟨rfl, fun e he => ?_⟩, hI.put _ t hi⟩
    have : e ∈ t.events := he
    rw [ht] at this
    cases this
  have hwork : Keeps h (fun t => Fresh t ∧ I t) (workspace s) := by
    refine Keeps.read.bind fun _ => Keeps.bind ?_ fun _ => .ofExcept _
    exact fun t ht => by rw [Robust.cachePath_apply]; exact ht
  have henter : ∀ w : Workspace, Keeps h (fun t => Fresh t ∧ I t) w.enter := fun w t ht =>
    have hw := w.quiet_enter t ⟨rfl, rfl⟩
    ⟨ht.1.aside hw.aside, hq _ _ ht.2 hw⟩
  have hstages : ∀ (w : Workspace) (a : Assembler), Yields h (fun t => Fresh t ∧ I t)
      (stages w a (.start s)) (fun _ t => Traced h s t ∧ I t) fun t => Fresh t ∧ I t := by
    intro w a
    refine .of_eq fun t ht => ?_
    obtain ⟨p, r, u, hr⟩ := stages_ends w a s t (h := h)
    exact .inl ⟨_, u, hr, (stages_traced hI w a).eq ht hr⟩
  refine hfresh.then (fun _ => ?_) fun _ => id
  refine (Keeps.ofExcept _).then (fun a => ?_) fun _ => id
  refine hwork.then (fun w => ?_) fun _ => id
  refine (henter w).then (fun _ => ?_) fun _ => id
  exact (hstages w a).bind fun _ => .pure fun _ => id

theorem leave_keeps (w : Workspace) (failed : Bool) :
    Keeps h I (w.leave [Series.revertAll] failed) := by
  intro t ht
  have hi : I (Series.revertAll h t).2 := hI.revertAll t ht
  rw [Workspace.leave_single]
  refine hq _ _ hi (Keeps.bind (Workspace.quiet_conclude _) (fun _ => ?_) _ ⟨rfl, rfl⟩)
  exact Workspace.quiet_release _ _

/-- Wherever a run ends, it has kept to the plan; that something is left in takes a start that was
refused on the way out. -/
theorem run_ends (ht : t.events = []) (hi : I t) : Traced h s (run s h t).2 ∧ I (run s h t).2 ∧
    ((∀ v u new, inside s h t = (.ok v, u) → (run s h t).2.events = new ++ u.events →
      ∀ e ∈ new, e.isRefused = false) → stack (run s h t).2.events = []) := by
  have hin := inside_yields hI hq (s := s)
  rcases hr : inside s h t with ⟨e | ⟨w, p, r⟩, u⟩
  · obtain ⟨hu, hi⟩ := hin.error ⟨ht, hi⟩ hr
    have hrun : (run s h t).2 = u := by rw [run_eq, hr]
    have hn : ∀ e ∈ u.events, e.patchStart? = none := fun e he => (hu.unused e he).1
    rw [hrun]
    refine ⟨hu.traced, hi, fun _ => ?_⟩
    have : stack (u.events ++ []) = stack [] := stack_append hn
    rwa [List.append_nil] at this
  · obtain ⟨⟨sched, hp, hu⟩, hi⟩ := hin.ok ⟨ht, hi⟩ hr
    obtain ⟨r', t', new, hl, hrest, hadv, hcalm⟩ := leave_empties w (isFault r) hu.toAtRest (h := h)
    have hrun : (run s h t).2 = t' := by
      rw [run_eq, hr]
      dsimp only
      rw [hl]
      cases r' <;> rfl
    rw [hrun]
    refine ⟨⟨sched, hp, hu.advance hrest hadv⟩, (leave_keeps hI hq w _).eq hi hl, fun hexit => ?_⟩
    exact hrest.stack_nil (hcalm (hexit _ u new rfl hadv.events))

end Sturdy

/-- Every build sees the tree it is meant to see: the first and the third one without any patch, the
second one with the whole series in order. All are started alike, each once at most. -/
theorem run_builds (ht : t.events = []) : builds (run s h t).2.events = [] ∨
    ∃ argv tree ps, patchesOf h s = .ok ps ∧
      (Kbuild.Make.standard.argv (s.value .targets) (s.value .jobs) (s.value .extraMakeArgs) >>=
        Json.allTexts) = .ok argv ∧
      (builds (run s h t).2.events).reverse.map Build.brief <+:
        [(⟨argv, some tree, .streamed (Differential.environment false)⟩, []),
          (⟨argv, some tree, .streamed (Differential.environment true)⟩, ps),
          (⟨argv, some tree, .streamed (Differential.environment false)⟩, [])] ∧
      ∀ i, (Differential.environment i).lookup "KCFLAGS" =
        some "-ffunction-sections -fdata-sections" := by
  obtain ⟨⟨sched, hplan, hend⟩, -⟩ := run_ends (sturdy_true h _) (fun _ _ _ _ => trivial) ht
    trivial (s := s)
  obtain rfl | ⟨tree, w, ps, hps, rfl⟩ := hplan
  · exact .inl (List.map_eq_nil_iff.1 (List.suffix_nil.1 hend.builds))
  · have hb := hend.builds
    rw [Differential.schedule] at hb
    split at hb
    · next argv hargv =>
      refine .inr ⟨argv, tree, ps, hps, hargv, ?_, fun i => by cases i <;> rfl⟩
      rw [List.map_reverse]
      exact List.reverse_prefix.2 hb
    · exact .inl (List.map_eq_nil_iff.1 (List.suffix_nil.1 hb))

namespace Workshop

/-- Only the build of the patched tree fails. -/
def status (s : Start) : Int :=
  if s.mode = .streamed (Differential.environment true) then 2 else 0

def host : Host where
  cwd := []
  home := "/root"
  machine := "ppc64le"
  cpus := none
  environment := []
  hasTool _ := true
  react _ s d := ⟨d, .ok ⟨status s, some "", none, none, Script.noFamily⟩⟩

def planted (text : String) : Node := .file ⟨Text.encode text, 0, 0⟩

def site : Site where
  disk := ⟨[(["fix.patch"], planted ""), (["linux"], .dir), (["out"], .dir),
    (["out", "old.ko"], .file ⟨[1], 0, 0⟩),
    (["linux", ".config"], planted "CONFIG_DEBUG_INFO=y\nCONFIG_LIVEPATCH=y\n"),
    (["linux", "vmlinux"], .file ⟨Layout.sampleImage, 0, 0⟩)], 1⟩
  events := []
  records := []
  sinks := []
  console := []
  series := Series.empty

def texts : List (Settings.Field × String) := [
  (.sourceDir, "linux"), (.vmlinux, "linux/vmlinux"), (.configFile, "linux/.config"),
  (.cacheDir, "/cache"), (.outputDir, "out"), (.arch, "ppc64le"), (.diffCompiler, "differ"),
  (.moduleTool, "assemble")]

def settings : Settings :=
  texts.foldl (fun s t => s.put t.1 (.str t.2))
    (((Settings.blank.put .patches (Json.ofTexts ["fix.patch"])).put .jobs (.int 1)).put
      .skipGccCheck (.bool true))

/-- The run tries the patch, and applies it once more for the build that fails. -/
theorem fails_patched :
    (run settings host site).1.toOption.bind (·.2.toOption) = none ∧
    applications (run settings host site).2.events = ["/fix.patch", "/fix.patch"] ∧
    (builds (run settings host site).2.events).reverse.map Build.patches = [[], ["/fix.patch"]] := by
  decide +kernel

end Workshop

theorem run_builds_sample :
    (builds (run Workshop.settings Workshop.host Workshop.site).2.events).length = 2 ∧
    ∃ argv tree ps, patchesOf Workshop.host Workshop.settings = .ok ps ∧
      (Kbuild.Make.standard.argv (Workshop.settings.value .targets) (Workshop.settings.value .jobs)
        (Workshop.settings.value .extraMakeArgs) >>= Json.allTexts) = .ok argv ∧
      (builds (run Workshop.settings Workshop.host Workshop.site).2.events).reverse.map Build.brief <+:
        [(⟨argv, some tree, .streamed (Differential.environment false)⟩, []),
          (⟨argv, some tree, .streamed (Differential.environment true)⟩, ps),
          (⟨argv, some tree, .streamed (Differential.environment false)⟩, [])] ∧
      ∀ i, (Differential.environment i).lookup "KCFLAGS" =
        some "-ffunction-sections -fdata-sections" := by
  have htwo := congrArg List.length Workshop.fails_patched.2.2
  rw [List.length_map, List.length_reverse] at htwo
  refine ⟨htwo, (run_builds rfl).resolve_left fun hnone => ?_⟩
  rw [hnone] at htwo
  cases htwo

end Hotpatch.Pipeline
