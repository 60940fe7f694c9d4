import Hotpatch.Main
import Hotpatch.Proofs.Gaps.Module
import Hotpatch.Proofs.Pipeline.Patches

/-! The gaps of a whole run. A run goes from stage to stage; the fault that it ends with is the one that
the last of them failed with, and every stage has its own gaps. The program has an ending for a run that
gives a module, for one that fails, and for one that is interrupted. -/

namespace Hotpatch

open Act Fault

variable {h : Host} {s : Settings}

namespace Closure

end Closure

namespace Pipeline

/-- A stage of a run, with what is known when it is taken. -/
inductive Stage where
  | place
  | enter (w : Workspace)
  | source (w : Workspace)
  | check (w : Workspace) (s : Settings)
  | config (w : Workspace) (s : Settings)
  | tools (w : Workspace) (p : Progress)
  | probe (w : Workspace) (p : Progress)
  | assemble (w : Workspace) (p : Progress) (a : Assembler) (name : String) (layout : Layout)
  | finish (w : Workspace) (p : Progress) (m : PatchModule) (undefined : List String)
  | leave (w : Workspace) (failed : Bool)

/-- The run of some settings takes a stage at a site: all stages before it went well. The workspace is
left however the stages inside it ended. -/
inductive Reaches (h : Host) (s : Settings) (t : Site) : Stage → Site → Prop
  | place : Reaches h s t .place { t with series := Series.empty }
  | enter {t₁ t₂ : Site} {w : Workspace} : Reaches h s t .place t₁ →
    workspace s h t₁ = (.ok w, t₂) → Reaches h s t (.enter w) t₂
  | source {t₁ t₂ : Site} {w : Workspace} : Reaches h s t (.enter w) t₁ →
    w.enter h t₁ = (.ok (), t₂) → Reaches h s t (.source w) t₂
  | check {t₁ t₂ : Site} {w : Workspace} {s' : Settings} : Reaches h s t (.source w) t₁ →
    prepareSource s h t₁ = (.ok s', t₂) → Reaches h s t (.check w s') t₂
  | config {t₁ t₂ : Site} {w : Workspace} {s' : Settings} : Reaches h s t (.check w s') t₁ →
    s'.validate h t₁ = (.ok (), t₂) → Reaches h s t (.config w s') t₂
  | tools {t₁ t₂ : Site} {w : Workspace} {s' : Settings} {c : Kbuild.Config} :
    Reaches h s t (.config w s') t₁ → readConfig s' h t₁ = (.ok c, t₂) →
    Reaches h s t (.tools w ⟨s', c.isEnabled Kbuild.Requirement.native,
      c.isEnabled Kbuild.Requirement.paravirt, none, none⟩) t₂
  | probe {t₁ t₂ : Site} {w : Workspace} {p : Progress} : Reaches h s t (.tools w p) t₁ →
    checkTools p h t₁ = (.ok (), t₂) → Reaches h s t (.probe w p) t₂
  | assemble {t₁ t₂ : Site} {w : Workspace} {p : Progress} {a : Assembler} {name : String}
    {layout : Layout} : Reaches h s t (.probe w p) t₁ →
    Pipeline.probe p h t₁ = (.ok (name, layout), t₂) → assembler s = .ok a →
    Reaches h s t (.assemble w { p with layout := some layout } a name layout) t₂
  | finish {t₁ t₂ : Site} {w : Workspace} {p : Progress} {a : Assembler} {name : String}
    {layout : Layout} {m : PatchModule} {undefined : List String} :
    Reaches h s t (.assemble w p a name layout) t₁ →
    Pipeline.assemble p a layout name w h t₁ = (.ok (m, undefined), t₂) →
    Reaches h s t (.finish w { p with module := some m } m undefined) t₂
  | leave {t₁ t₂ : Site} {w : Workspace} {a : Assembler} {p : Progress} {r : Except Fault String} :
    Reaches h s t (.source w) t₁ → assembler s = .ok a →
    stages w a (.start s) h t₁ = (.ok (p, r), t₂) → Reaches h s t (.leave w (isFault r)) t₂

/-- The gaps of the stages: all places at which a fault goes on that is no failure of the build. -/
inductive Gap (h : Host) (s : Settings) :
    Stage → Fault → {β : Type} → Act β → Except Fault β → Prop
  /-- The home directory that the cache directory begins with can't be told. -/
  | home : Gap h s .place .homeless (workspace s) (.error .homeless)
  | entry {w : Workspace} {e : Fault} {β : Type} {a : Act β} {r : Except Fault β} :
    w.EntryGap e a r → Gap h s (.enter w) e a r
  | cache {w : Workspace} {dir : String} {e : Fault} {β : Type} {a : Act β} {r : Except Fault β} :
    (s.text .cacheDir >>= expandHome h.home) = .ok dir → SourceCache.Gap ⟨clean dir⟩ e a r →
    Gap h s (.source w) e a r
  | file {w : Workspace} {s' : Settings} {path : String} {e : Fault} : s'.Names path →
    Gap h s (.check w s') e (Act.isFile (clean path)) (.error e)
  | directory {w : Workspace} {s' : Settings} {path : String} {e : Fault} : s'.Names path →
    Gap h s (.check w s') e (Act.isDir (clean path)) (.error e)
  /-- What is missing was taken away after the settings were made. -/
  | missing {w : Workspace} {s' : Settings} {f : Settings.Field} {e : Fault} : s.Lacks f →
    Gap h s (.check w s') e (Act.ofExcept (s'.value f).text) (.error e)
  | config {w : Workspace} {s' : Settings} {path : String} {e : Fault} :
    s'.value .configFile = .str path → Gap h s (.config w s') e (Kbuild.Config.load path) (.error e)
  | compiler {w : Workspace} {p : Progress} {image : String} {e : Fault} {β : Type} {a : Act β}
    {r : Except Fault β} : p.settings.value .vmlinux = .str image →
    Elf.Gap image Elf.readComments e a r → Gap h s (.tools w p) e a r
  | target {w : Workspace} {p : Progress} {e : Fault} : s.Lacks .arch →
    Gap h s (.probe w p) e (Act.ofExcept (archOf p.settings)) (.error e)
  | layout {w : Workspace} {p : Progress} {image arch : String} {e : Fault} {β : Type} {a : Act β}
    {r : Except Fault β} : p.settings.value .vmlinux = .str image → p.settings.value .arch = .str arch →
    Layout.Gap image (Layout.required arch p.paravirt) e a r → Gap h s (.probe w p) e a r
  | series {w : Workspace} {p : Progress} {asm : Assembler} {name : String} {l : Layout} {e : Fault}
    {β : Type} {a : Act β} {r : Except Fault β} : Series.Gap e a r →
    Gap h s (.assemble w p asm name l) e a r
  | builds {w : Workspace} {p : Progress} {asm : Assembler} {name tree : String} {l : Layout}
    {e : Fault} {β : Type} {a : Act β} {r : Except Fault β} :
    p.settings.value .sourceDir = .str tree → (differential p.settings tree w).Gap e a r →
    Gap h s (.assemble w p asm name l) e a r
  | symvers {w : Workspace} {p : Progress} {asm : Assembler} {name tree : String} {l : Layout}
    {e : Fault} : p.settings.value .sourceDir = .str tree →
    Gap h s (.assemble w p asm name l) e (Act.present (symvers tree)) (.error e)
  | module {w : Workspace} {p : Progress} {asm : Assembler} {name tree : String} {l : Layout}
    {e : Fault} {β : Type} {a : Act β} {r : Except Fault β} :
    p.settings.value .sourceDir = .str tree → (aggregate p asm l name tree w).Gap e a r →
    Gap h s (.assemble w p asm name l) e a r
  | symbols {w : Workspace} {p : Progress} {m : PatchModule} {undefined : List String} {e : Fault}
    {β : Type} {a : Act β} {r : Except Fault β} : Elf.Gap m.path Elf.Image.definedSymbols e a r →
    Gap h s (.finish w p m undefined) e a r
  /-- What the file system refuses on delivery is told; what is left are paths that can't be any. -/
  | delivery {w : Workspace} {p : Progress} {m : PatchModule} {undefined : List String} {dir : String}
    {e : Fault} : p.settings.value .outputDir = .str dir → (∀ d, e ≠ .disk d) →
    Gap h s (.finish w p m undefined) e (do
      Act.makeDirs (clean dir)
      Act.change (·.copy · m.path (under (clean dir) (fileName m.path))) : Act Unit) (.error e)
  | revert {w : Workspace} {failed : Bool} {e : Fault} {β : Type} {a : Act β} {r : Except Fault β} :
    Series.Gap e a r → Gap h s (.leave w failed) e a r
  | exit {w : Workspace} {failed : Bool} {e : Fault} {β : Type} {a : Act β} {r : Except Fault β} :
    w.ExitGap e a r → Gap h s (.leave w failed) e a r

/-- Settings of the right makes, as they are given or pointed at a source. -/
structure Fit (s s' : Settings) : Prop where
  proper : s'.isProper = true
  origin : s' = s ∨ ∃ tree, s.useSource (.str tree) = .ok s'

section Stages

variable {s' : Settings}

theorem assembler_ok (hs : s.isProper = true) : ∃ a, assembler s = .ok a ∧ a.IsFit := by
  obtain ⟨flags, hflags⟩ := Settings.texts_of_accepts (Settings.accepts_of_isProper hs .extraLinkFlags)
  obtain ⟨tool, htool⟩ := Settings.text_of_accepts (Settings.accepts_of_isProper hs .moduleTool)
  refine ⟨⟨s.value .moduleTool, "ld", "objcopy", flags.map .str⟩, ?_, ⟨tool, htool⟩, flags, rfl⟩
  rw [assembler, hflags, Json.itemsIfTrue_ofTexts]
  rfl

theorem prepareSource_fit {t u : Site} (hs : s.isProper = true)
    (hr : prepareSource s h t = (.ok s', u)) : Fit s s' := by
  rw [prepareSource] at hr
  dsimp only at hr
  split at hr
  · obtain ⟨rfl, -⟩ := pure_of_ok hr
    exact ⟨hs, .inl rfl⟩
  · obtain ⟨t₁, hr⟩ := guard_of_ok hr
    obtain ⟨dir, t₂, -, hr⟩ := bind_of_ok hr
    obtain ⟨tree, t₃, -, hr⟩ := bind_of_ok hr
    rw [ofExcept_apply] at hr
    have huse := (Prod.mk.inj hr).1
    exact ⟨Settings.useSource_isProper hs huse, .inr ⟨tree, huse⟩⟩

/-- The sizes that were found have their variables. -/
theorem probe_environment {p : Progress} {t u : Site} {name : String} {layout : Layout}
    (hr : probe p h t = (.ok (name, layout), u)) : ∃ vs, layout.environment = .ok vs := by
  obtain ⟨n, t₁, -, hr⟩ := bind_of_ok hr
  obtain ⟨⟨⟩, t₂, -, hr⟩ := bind_of_ok hr
  obtain ⟨i, t₃, -, hr⟩ := bind_of_ok hr
  obtain ⟨arch, t₄, -, hr⟩ := bind_of_ok hr
  obtain ⟨l, t₅, hlayout, hr⟩ := bind_of_ok hr
  obtain ⟨heq, -⟩ := pure_of_ok hr
  cases heq
  exact Layout.environment_ok hlayout

end Stages

section Run

variable {t u : Site} {w : Workspace} {a : Assembler}

theorem workspace_cache (hr : workspace s h t = (.ok w, u)) :
    ∃ c, (s.text .cacheDir >>= expandHome h.home) = .ok c := by
  rw [workspace, bind_ok (read_apply h t)] at hr
  obtain ⟨c, t', hc, -⟩ := bind_of_ok hr
  rw [Robust.cachePath_apply] at hc
  exact ⟨c, (Prod.mk.inj hc).1⟩

/-- Settings that were checked: they have a source tree with a configuration and an image. -/
def Placed (s : Settings) : Prop :=
  ∀ f : Settings.Field, f = .sourceDir ∨ f = .configFile ∨ f = .vmlinux → ∃ p, s.value f = .str p

/-- What a stage asks of the settings, and of what was found out before it. -/
def Stage.Fits (h : Host) (s : Settings) : Stage → Prop
  | .place | .leave _ _ => True
  | .enter _ | .source _ => ∃ dir, (s.text .cacheDir >>= expandHome h.home) = .ok dir
  | .check _ s' => Fit s s'
  | .config _ s' => Fit s s' ∧ Placed s'
  | .tools _ p | .probe _ p => Fit s p.settings ∧ Placed p.settings
  | .assemble _ p a _ layout =>
    Fit s p.settings ∧ Placed p.settings ∧ a.IsFit ∧ ∃ vs, layout.environment = .ok vs
  | .finish _ p _ _ => Fit s p.settings

theorem Reaches.fits {t₁ : Site} {g : Stage} (hs : s.isProper = true) (hg : Reaches h s t g t₁) :
    g.Fits h s := by
  induction hg with
  | place => trivial
  | enter _ hw _ => exact workspace_cache hw
  | source _ _ ih => exact ih
  | check _ hr _ => exact prepareSource_fit hs hr
  | config _ hr ih => exact ⟨ih, fun _ hf => Settings.validate_ok hr hf⟩
  | tools _ _ ih => exact ih
  | probe _ _ ih => exact ih
  | assemble _ hr ha ih =>
    obtain ⟨b, hb, hfit⟩ := assembler_ok hs
    cases hb.symm.trans ha
    exact ⟨ih.1, ih.2, hfit, probe_environment hr⟩
  | finish _ _ ih => exact ih.1
  | leave => trivial

end Run

end Pipeline

namespace CommandLine

end CommandLine

namespace Pipeline

end Pipeline

end Hotpatch
