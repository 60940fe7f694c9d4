import Hotpatch.Pipeline
import Hotpatch.Proofs.Robust

/-! What the stages of a run do to a site, apart from the builds: they all keep a robust fact, as
long as the paths they write to are of those that the fact allows. -/

namespace Hotpatch.Robust

open Act

variable {h : Host} {mine seen : String → Prop} {I : Site → Prop}

section Source

variable {c : SourceCache}

theorem sourceVersion : Keeps h I c.version := by
  refine (Keeps.present _).bind fun _ => ?_
  dsimp only
  split
  · exact .pure _
  · refine (Keeps.isDir _).bind fun _ => ?_
    split
    · exact .pure _
    · exact (Keeps.readText _).bind fun _ => .pure _

theorem sourceIsCurrent (version : Json) : Keeps h I (c.isCurrent version) := by
  refine sourceVersion.bind fun _ => ?_
  split <;> exact .pure _

variable (hI : Robust h mine seen I)
include hI

theorem sourceClear (hs : mine c.tree) (hv : mine c.tag) : Keeps h I c.clear := by
  refine (Keeps.present _).bind fun _ => ?_
  refine Keeps.guard (hI.removeTree _ hs) fun _ => (Keeps.present _).bind fun _ => ?_
  split
  · exact hI.unlink _ hv
  · exact .pure _

theorem sourceInvalidate (hs : mine c.tree) (hv : mine c.tag) : Keeps h I c.invalidate := by
  refine (hI.info _ _).bind fun _ => (hI.sourceClear hs hv).attempt.bind fun _ => ?_
  split
  · exact .fail _
  · exact .ofExcept _

theorem sourceFetch (hs : mine c.tree) (hv : mine c.tag) (version tool : Json) :
    Keeps h I (c.fetch version tool) := by
  refine (hI.ensureDirectory _).bind fun _ => (hI.info _ _).bind fun _ => ?_
  refine (Keeps.ofExcept _).bind fun _ => (Keeps.ofExcept _).bind fun _ => ?_
  refine (hI.runLoose _ _).bind fun r => ?_
  have noted : Keeps h I (do
      change (·.write · c.tag (Text.encode (version.shown ++ "\n")))
      return c.tree : Act String) :=
    (hI.write _ _ hv).bind fun _ => .pure _
  have checked : ∀ arrived : Bool, Keeps h I (do
      if !arrived then
        c.invalidate
        fail (.configuration ("failed to acquire kernel source for " ++ version.shown))
      change (·.write · c.tag (Text.encode (version.shown ++ "\n")))
      return c.tree : Act String) := by
    intro arrived
    dsimp only
    split
    · exact (hI.sourceInvalidate hs hv).bind fun _ => (Keeps.fail _).bind fun _ => noted
    · exact noted
  dsimp only
  split
  · exact (Keeps.isDir _).bind checked
  · exact (Keeps.pure _).bind checked

theorem sourceEnsure (hs : mine c.tree) (hv : mine c.tag) (version tool : Json) :
    Keeps h I (c.ensure version tool) := by
  have fresh : Keeps h I (do
      c.invalidate
      if !tool.isTrue then
        fail (.configuration
          ("no cached source for kernel " ++ version.shown ++ " and no fetch command given"))
      c.fetch version tool : Act String) :=
    (hI.sourceInvalidate hs hv).bind fun _ =>
      Keeps.guard (.fail _) fun _ => hI.sourceFetch hs hv _ _
  refine (sourceIsCurrent _).bind fun _ => ?_
  dsimp only
  split
  · exact (hI.info _ _).bind fun _ => .pure _
  · refine sourceVersion.bind fun _ => ?_
    split
    · exact (hI.info _ _).bind fun _ => fresh
    · exact fresh

end Source

section Settings

open Settings

variable {s : Settings}

theorem refuse {α : Type} (m : String) : Keeps h I (Settings.refuse m : Act α) := .fail _

theorem needFile (what : String) (p : Json) : Keeps h I (needFile what p) := by
  refine (Keeps.ofExcept _).bind fun _ => (Keeps.isFile _).bind fun _ => ?_
  split
  · exact refuse _
  · exact .pure _

theorem needDirectory (what : String) (p : Json) : Keeps h I (needDirectory what p) := by
  refine (Keeps.ofExcept _).bind fun _ => (Keeps.isDir _).bind fun _ => ?_
  split
  · exact refuse _
  · exact .pure _

theorem needJobs (j : Json) : Keeps h I (needJobs j) := by
  rw [Settings.needJobs]
  split
  · split
    · exact refuse _
    · exact .pure _
  · exact .throw _

theorem validate : Keeps h I s.validate := by
  refine Keeps.guard (refuse _) fun _ => Keeps.guard (refuse _) fun _ => ?_
  refine (Keeps.ofExcept _).bind fun _ => (Keeps.forM (needFile _) _).bind fun _ => ?_
  refine (needDirectory _ _).bind fun _ => (needFile _ _).bind fun _ => ?_
  refine (needFile _ _).bind fun _ => (needJobs _).bind fun _ => ?_
  split
  · exact needFile _ _
  · exact .pure _

theorem cachePath_apply (t : Site) :
    s.cachePath h t = (s.text .cacheDir >>= expandHome h.home, t) := by
  rw [Settings.cachePath, bind_ok (read_apply h t)]
  rcases hd : s.text .cacheDir with e | d
  · exact bind_error (ofExcept_apply h t _)
  · exact (bind_ok (ofExcept_apply h t (.ok d))).trans (ofExcept_apply h t _)

end Settings

section Image

theorem inspect {α : Type} (p : String) (look : Elf.Image → Except ImageFault α) :
    Keeps h I (Elf.inspect p look) := by
  refine (Keeps.query _).bind fun _ => ?_
  split
  · exact .pure _
  · exact .throw _

theorem isRelocatableObject (p : String) : Keeps h I (Elf.isRelocatableObject p) := by
  refine (Keeps.isFile _).bind fun _ => ?_
  split
  · exact (Keeps.query _).bind fun _ => .pure _
  · exact .pure _

theorem definedSymbols (p : String) : Keeps h I (Elf.definedSymbols p) := by
  refine (inspect _ _).attempt.bind fun _ => ?_
  split
  · exact .pure _
  · split
    · exact .fail _
    · exact .throw _

variable (hI : Robust h mine seen I)
include hI

theorem compilerVersion (p : String) : Keeps h I (Elf.compilerVersion p) := by
  refine (inspect _ _).attempt.bind fun _ => ?_
  split
  · exact .pure _
  · split
    · exact (hI.warning _ _).bind fun _ => .pure _
    · exact .throw _

theorem settleLayout (found : List (String × Dwarf.Value)) :
    ∀ ns : List String, Keeps h I (Layout.settle found ns)
  | [] => .pure _
  | _ :: ns =>
    (Keeps.ofExcept _).bind fun _ => (Keeps.ofExcept _).bind fun _ => (hI.debug _ _).bind fun _ =>
      (settleLayout found ns).bind fun _ => .pure _

theorem probeLayout (image arch : String) (paravirt : Bool) :
    Keeps h I (Layout.probe image arch paravirt) := by
  have scan : ∀ ns, Keeps h I (Layout.scan image ns) := by
    intro ns
    refine (inspect _ _).bind fun _ => ?_
    split
    · exact .fail _
    · exact .ofExcept _
  refine (hI.debug _ _).bind fun _ => (scan _).attempt.bind fun _ => ?_
  split
  · exact (hI.settleLayout _ _).bind fun _ => .pure _
  · split
    · exact .fail _
    · exact .throw _

end Image

section Toolchain

open Toolchain

variable {c : Toolchain} (hI : Robust h mine seen I)
include hI

theorem hostVersion : Keeps h I c.version := by
  refine (hI.launch _ rfl).bind fun _ => ?_
  split
  · exact .pure _
  · exact Keeps.guard (.throw _) fun _ => (hI.error _ _).bind fun _ => .pure _

theorem checkCompiler (image : String) (host : Option String) :
    Keeps h I (checkCompiler image host) := by
  refine (hI.compilerVersion _).bind fun _ => ?_
  split
  · exact hI.warning _ _
  · split
    · exact .fail _
    · exact .pure _

theorem validateTools (image : String) (skip : Bool) : Keeps h I (c.validate image skip) := by
  refine (Keeps.read.bind fun _ => .pure _).bind fun _ => Keeps.guard (.fail _) fun _ => ?_
  refine hI.hostVersion.bind fun _ => ?_
  dsimp only
  split
  · exact (hI.warning _ _).bind fun _ => (hI.debug _ _).bind fun _ => .pure _
  · exact (hI.checkCompiler _ _).bind fun _ => (hI.debug _ _).bind fun _ => .pure _

end Toolchain

section Early

open Pipeline

variable {s : Settings} {p : Progress}

theorem textOf (f : Settings.Field) : Keeps h I (textOf s f) := .ofExcept _

variable (hI : Robust h mine seen I)
include hI

theorem prepareSource (hc : ∀ c, (s.text .cacheDir >>= expandHome h.home) = .ok c →
    mine (under (clean c) "src") ∧ mine (under (clean c) "version")) :
    Keeps h I (prepareSource s) := by
  have cached : Ends h I s.cachePath fun r t => I t ∧ (s.text .cacheDir >>= expandHome h.home) = r := by
    intro t ht
    rw [cachePath_apply]
    exact ⟨ht, rfl⟩
  have fetched : Keeps h I (do
      let c : SourceCache := ⟨clean (← s.cachePath)⟩
      Act.ofExcept (s.useSource (.str (← c.ensure (s.value .targetVersion) (s.value .fetchCommand)))) :
        Act Settings) := by
    refine cached.bind (U := fun _ => I) (fun c => ?_) fun _ _ => And.left
    intro t ht
    have ⟨hs, hv⟩ := hc c ht.2
    exact ((hI.sourceEnsure (c := ⟨clean c⟩) hs hv _ _).bind fun _ => .ofExcept _) t ht.1
  rw [Pipeline.prepareSource]
  dsimp only
  split
  · exact .pure _
  · split
    · exact (refuse _).bind fun _ => fetched
    · exact fetched

theorem report (f : Kbuild.Finding) : Keeps h I (Kbuild.Requirement.report f) := by
  rw [Kbuild.Requirement.report]
  split
  · exact .pure _
  · exact hI.warning _ _
  · exact hI.debug _ _

omit hI in
theorem loadConfig (path : String) : Keeps h I (Kbuild.Config.load path) :=
  (Keeps.present _).bind fun _ => Keeps.guard (.throw _) fun _ =>
    (Keeps.readText _).bind fun _ => .pure _

theorem readConfig : Keeps h I (readConfig s) := by
  have ensure : ∀ c, Keeps h I (Kbuild.Requirement.ensure c) := by
    intro c
    refine (Keeps.forM hI.report _).bind fun _ => ?_
    split
    · exact .fail _
    · exact .pure _
  exact (textOf _).bind fun _ => (loadConfig _).bind fun _ => (ensure _).bind fun _ => .pure _

theorem checkTools : Keeps h I (checkTools p) := by
  have tools : Keeps h I (do
      let _ ← Toolchain.standard.validate (← Pipeline.textOf p.settings .vmlinux)
        (p.settings.isGiven .skipGccCheck) : Act Unit) :=
    (textOf _).bind fun _ => (hI.validateTools _ _).bind fun _ => .pure _
  exact Keeps.guard (hI.warning _ _) fun _ => tools

end Early

end Hotpatch.Robust
