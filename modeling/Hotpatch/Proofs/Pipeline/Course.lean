import Hotpatch.Proofs.Pipeline.Assembly
import Hotpatch.Proofs.Pipeline.Builds

/-! The course of a run. `prepared` is all that comes before the check of the module; the stages of
a run are this and the check. It starts where no patch was touched and ends with all of them out,
or it fails, and wherever it ends the builds so far go by the plan. -/

namespace Hotpatch

open Act

namespace Pipeline

open Series

variable {h : Host} {mine seen : String → Prop} {I : Site → Prop} {s : Settings}

/-- The patches of a run, by their absolute paths. -/
def patchesOf (h : Host) (s : Settings) : Except Fault (List String) :=
  ((s.value .patches).items >>= Json.allTexts).map (·.map (absolute h.cwd.text))

/-- What a run of some settings may build: nothing at all, or the three builds of one tree. -/
def Planned (h : Host) (s : Settings) (sched : List (Start × List String)) : Prop :=
  sched = [] ∨ ∃ tree w ps, patchesOf h s = .ok ps ∧ sched = (differential s tree w).schedule ps

/-- Before the patches are touched. -/
structure Fresh (t : Site) : Prop where
  series : t.series = Series.empty
  unused : ∀ e ∈ t.events, e.patchStart? = none ∧ e.isBuild = false

/-- How a run stands wherever its stages end. -/
def Traced (h : Host) (s : Settings) (t : Site) : Prop :=
  ∃ sched, Planned h s sched ∧ Scheduled sched t

theorem Fresh.aside {t t' : Site} (ht : Fresh t) (ha : Aside t t') : Fresh t' := by
  obtain ⟨hs, new, he, hn⟩ := ha
  refine ⟨hs.trans ht.series, fun e hmem => ?_⟩
  rw [he] at hmem
  rcases List.mem_append.1 hmem with hmem | hmem
  · exact hn e hmem
  · exact ht.unused e hmem

/-- Settings that differ in the source tree and the files looked for in it at most. -/
def Sourced (s s' : Settings) : Prop :=
  ∀ f, f ≠ .sourceDir → f ≠ .configFile → f ≠ .vmlinux → s'.value f = s.value f

theorem Sourced.put {s s' : Settings} {f : Settings.Field} {j : Json} (hs : Sourced s s')
    (hf : f = .sourceDir ∨ f = .configFile ∨ f = .vmlinux) : Sourced s (s'.put f j) := by
  intro g h₁ h₂ h₃
  have hg : g ≠ f := by rintro rfl; simp_all
  rw [Settings.put]
  simpa [hg] using hs g h₁ h₂ h₃

theorem Sourced.fillFrom {s s' s'' : Settings} {f : Settings.Field} {tree : Json} {file : String}
    (hs : Sourced s s') (hf : f = .sourceDir ∨ f = .configFile ∨ f = .vmlinux)
    (h : s'.fillFrom f tree file = .ok s'') : Sourced s s'' := by
  rw [Settings.fillFrom] at h
  split at h
  · rcases htree : tree.text with e | p
    · rw [htree] at h
      cases h
    · rw [htree] at h
      cases h
      exact hs.put hf
  · cases h
    exact hs

theorem Sourced.useSource {s s' : Settings} {tree : Json} (h : s.useSource tree = .ok s') :
    Sourced s s' := by
  have h₀ : Sourced s (s.put .sourceDir (.str tree.shown)) :=
    Sourced.put (fun _ _ _ _ => rfl) (.inl rfl)
  rw [Settings.useSource] at h
  rcases hc : (s.put .sourceDir (.str tree.shown)).fillFrom .configFile tree ".config" with e | s₁
  · simp only [hc] at h
    cases h
  · simp only [hc] at h
    exact (h₀.fillFrom (.inr (.inl rfl)) hc).fillFrom (.inr (.inr rfl)) h

theorem Sourced.patchesOf {s s' : Settings} (hs : Sourced s s') : patchesOf h s' = patchesOf h s := by
  rw [Pipeline.patchesOf, Pipeline.patchesOf, hs .patches nofun nofun nofun]

theorem Sourced.differential {s s' : Settings} (hs : Sourced s s') (tree : String) (w : Workspace) :
    differential s' tree w = differential s tree w := by
  rw [Pipeline.differential, Pipeline.differential, hs .targets nofun nofun nofun,
    hs .jobs nofun nofun nofun, hs .extraMakeArgs nofun nofun nofun]

theorem Sourced.traced {s s' : Settings} (hs : Sourced s s') {t : Site} (ht : Traced h s' t) :
    Traced h s t := by
  obtain ⟨sched, hp, ht⟩ := ht
  refine ⟨sched, hp.imp_right fun ⟨tree, w, ps, hps, he⟩ => ⟨tree, w, ps, ?_, ?_⟩, ht⟩
  · rw [← hs.patchesOf, hps]
  · rw [he, hs.differential]

/-- Any series may be taken up. -/
theorem Fresh.posed {t t' : Site} (ht : Fresh t) (he : t'.events = t.events)
    (hc : t'.series.count = 0) (hp : t'.series.phase = .pending) :
    Posed t'.series.patches false [] t' := by
  have hn : ∀ e ∈ t'.events, e.patchStart? = none := by
    rw [he]
    exact fun e hmem => (ht.unused e hmem).1
  have hb : ∀ e ∈ t'.events, e.isBuild = false := by
    rw [he]
    exact fun e hmem => (ht.unused e hmem).2
  refine ⟨.pending hn hc hp, clean_of_unused hn, rfl, nofun, fun _ => ⟨hc, by rw [hp]; nofun⟩, ?_⟩
  have : builds (t'.events ++ []) = builds [] := builds_append hb
  rwa [List.append_nil] at this

theorem Fresh.taken {t : Site} (ht : Fresh t) (cwd tree : String) (texts : List String) :
    Posed (texts.map (absolute cwd)) false [] { t with series := ofPatches cwd tree texts } := by
  let t' : Site := { t with series := ofPatches cwd tree texts }
  have hp : Posed t'.series.patches false [] t' := ht.posed rfl rfl rfl
  exact hp

theorem Fresh.traced {t : Site} (ht : Fresh t) : Traced h s t := by
  have hp := ht.posed rfl (by rw [ht.series]; rfl) (by rw [ht.series]; rfl)
  exact ⟨[], .inl rfl, hp.scheduled List.nil_suffix⟩

/-- The paths that the stages of a run write to are among those of `mine`. -/
structure Owned (h : Host) (mine seen : String → Prop) (s : Settings) (w : Workspace) : Prop where
  source : ∀ c, (s.text .cacheDir >>= expandHome h.home) = .ok c →
    mine (under (clean c) "src") ∧ mine (under (clean c) "version")
  core : ∀ name, Differential.isCoreName name = true → seen name → Within mine (under w.scratch name)
  original : ∀ p, Named seen p → Within mine (under (under w.scratch "orig") p)
  patched : ∀ p, Named seen p → Within mine (under (under w.scratch "patched") p)
  output : ∀ p, Named seen p → Within mine (under (under w.scratch "output") p)
  checksum : mine (under (parent (under (under w.scratch "patch") "tmp_output.o")) "checksum.tmp")

theorem owned_all (h : Host) (seen : String → Prop) (s : Settings) (w : Workspace) :
    Owned h (fun _ => True) seen s w :=
  have all : ∀ p, Within (fun _ => True) p := fun _ => ⟨trivial, fun _ _ => trivial⟩
  ⟨fun _ _ => ⟨trivial, trivial⟩, fun _ _ _ => all _, fun _ _ => all _, fun _ _ => all _,
    fun _ _ => all _, trivial⟩

/-- What a run knows when its module is to be checked. -/
structure Prepared where
  config : Kbuild.Config
  progress : Progress
  module : PatchModule
  undefined : List String

/-- All stages of a run before the check, one after the other. -/
def prepared (w : Workspace) (a : Assembler) (s : Settings) : Act Prepared := do
  let s ← prepareSource s
  s.validate
  let c ← readConfig s
  let p : Progress := ⟨s, c.isEnabled Kbuild.Requirement.native,
    c.isEnabled Kbuild.Requirement.paravirt, none, none⟩
  checkTools p
  let (name, layout) ← probe p
  let p := { p with layout := some layout }
  let (m, undefined) ← assemble p a layout name w
  return ⟨c, { p with module := some m }, m, undefined⟩

theorem step_ok {α β : Type} {p : Progress} {stage : Act α} {next : α → Act (Ended β)} {t u : Site}
    {v : α} (hs : stage h t = (.ok v, u)) : step p stage next h t = next v h u := by
  rw [step, bind_ok (attempt_apply h t stage), hs]

theorem step_error {α β : Type} {p : Progress} {stage : Act α} {next : α → Act (Ended β)}
    {t u : Site} {e : Fault} (hs : stage h t = (.error e, u)) :
    step p stage next h t = (.ok (p, .error e), u) := by
  rw [step, bind_ok (attempt_apply h t stage), hs]
  rfl

/-- The second action goes the way of the first, and on with `next` where that ends well. -/
def Follows {α β : Type} (h : Host) (t : Site) (a : Act α) (b : Act (Ended β))
    (next : α → Act (Ended β)) : Prop :=
  (∃ e p u, a h t = (.error e, u) ∧ b h t = (.ok (p, .error e), u)) ∨
    ∃ v u, a h t = (.ok v, u) ∧ b h t = next v h u

theorem Follows.step {α β γ : Type} {t : Site} {p : Progress} {stage : Act γ} {f : γ → Act α}
    {g : γ → Act (Ended β)} {next : α → Act (Ended β)}
    (hf : ∀ v u, Follows h u (f v) (g v) next) :
    Follows h t (stage >>= f) (Pipeline.step p stage g) next := by
  rcases hs : stage h t with ⟨e | v, u⟩
  · exact .inl ⟨e, p, u, bind_error hs, step_error hs⟩
  · rw [Follows, bind_ok hs, step_ok hs]
    exact hf v u

/-- The stages of a run are those before the check, and the check. -/
theorem stages_follows (w : Workspace) (a : Assembler) (s : Settings) (t : Site) :
    Follows h t (prepared w a s) (stages w a (.start s)) fun v =>
      step v.progress (finish v.progress v.module v.undefined) fun output =>
        pure (v.progress, .ok output) := by
  refine .step fun s u => .step fun _ u => .step fun c u => .step fun _ u => ?_
  refine .step fun ⟨name, layout⟩ u => .step fun ⟨m, undefined⟩ u => .inr ⟨_, u, rfl, rfl⟩

section Sturdy

variable (hI : Sturdy h mine seen I)
include hI

/-- Trying the patches and building with them, once the series is taken up. -/
theorem tried_yields {tree : String} {w : Workspace} {s₀ : Settings} (hw : Owned h mine seen s₀ w)
    (ps : List String) : Yields h (fun t => Posed ps false [] t ∧ I t) (do
        Log.info Pipeline.source "Testing patch file(s)"
        Series.apply
        Series.revertAll
        let before ← (differential s tree w).baseline
        (differential s tree w).instrumented (some before) : Act Harvest)
      (fun v t => ∃ bs, (differential s tree w).Gives seen ps v bs ∧
        bs.map Build.brief <:+ (differential s tree w).schedule ps ∧ Posed ps false bs t ∧ I t)
      fun t => Scheduled ((differential s tree w).schedule ps) t ∧ I t := by
  have hs : ([] : List Build).map Build.brief <:+ (differential s tree w).schedule ps :=
    List.nil_suffix
  refine (hI.posed.info _ _).then (fun _ => ?_) fun t ht => ⟨ht.1.scheduled hs, ht.2⟩
  refine (hI.apply_poses hs).bind fun _ => (hI.revertAll_poses hs).bind fun _ => ?_
  refine (hI.baseline_poses (b := differential s tree w) hw.core).bind fun before => ?_
  refine Yields.some fun bs => Yields.given fun hb => Yields.given fun hs => ?_
  obtain ⟨output, hb⟩ := hb
  exact hI.instrumented_poses (b := differential s tree w) hw.core hw.original hw.patched hb hs _

theorem harvest_yields {tree : String} {w : Workspace} {s₀ : Settings}
    (hw : Owned h mine seen s₀ w) : Yields h (fun t => Fresh t ∧ I t) (harvest s tree w)
      (fun v t => ∃ ps bs, patchesOf h s = .ok ps ∧ (differential s tree w).Gives seen ps v bs ∧
        bs.map Build.brief <:+ (differential s tree w).schedule ps ∧ Posed ps false bs t ∧ I t)
      fun t => Traced h s t ∧ I t := by
  have end_ : ∀ t, Fresh t ∧ I t → Traced h s t ∧ I t := fun t ht => ⟨ht.1.traced, ht.2⟩
  refine Yields.bind (S := fun texts t => ((s.value .patches).items >>= Json.allTexts) = .ok texts ∧
    Fresh t ∧ I t) (.ofExcept (fun _ hv _ ht => ⟨hv, ht⟩) end_) fun texts => ?_
  refine Yields.given fun htexts => ?_
  refine Yields.bind (S := fun c t => c = h.cwd.text ∧ Fresh t ∧ I t)
    (.of_eq fun t ht => .inl ⟨_, t, rfl, rfl, ht⟩) fun c => Yields.given fun hc => ?_
  subst hc
  let ps := texts.map (absolute h.cwd.text)
  have hps : patchesOf h s = .ok ps := by
    rw [patchesOf, htexts]
    rfl
  refine Yields.bind (S := fun _ t => Posed ps false [] t ∧ I t)
    (.of_eq fun t ht => .inl ⟨(), _, rfl, ht.1.taken _ _ _, hI.put _ t ht.2⟩) fun _ => ?_
  refine (tried_yields hI hw ps).mono (fun _ => id)
    (fun v t ⟨bs, ht⟩ => ⟨ps, bs, hps, ht⟩) fun t ht => ⟨⟨_, .inr ⟨tree, w, ps, hps, rfl⟩, ht.1⟩, ht.2⟩

theorem fresh_robust : Robust h mine seen fun t => Fresh t ∧ I t :=
  hI.toRobust.beside fun _ _ => Fresh.aside

omit hI in
theorem prepareSource_sourced {t t' : Site} {s' : Settings}
    (hr : prepareSource s h t = (.ok s', t')) : Sourced s s' := by
  have fetched : ∀ {t t'}, (do
      let c : SourceCache := ⟨clean (← s.cachePath)⟩
      Act.ofExcept (s.useSource (.str (← c.ensure (s.value .targetVersion)
        (s.value .fetchCommand)))) : Act Settings) h t = (.ok s', t') → Sourced s s' := by
    intro t t' hr
    rcases bind_cases hr with ⟨e, -, he⟩ | ⟨c, u, -, hr⟩
    · cases he
    · rcases bind_cases hr with ⟨e, -, he⟩ | ⟨tree, u', -, hr⟩
      · cases he
      · rw [ofExcept_apply] at hr
        exact Sourced.useSource (Prod.mk.inj hr).1
  rw [prepareSource] at hr
  dsimp only at hr
  split at hr
  · cases hr
    exact fun _ _ _ _ => rfl
  · split at hr
    · rcases bind_cases hr with ⟨e, -, he⟩ | ⟨u, t₁, hf, -⟩
      · cases he
      · cases hf
    · exact fetched hr

/-- What a run knows of itself when its module is to be checked. -/
structure Finding (h : Host) (seen : String → Prop) (s : Settings) (w : Workspace) (v : Prepared)
    (ps : List String) (bs : List Build) : Prop where
  settings : Sourced s v.progress.settings
  patches : patchesOf h s = .ok ps
  native : v.progress.native = v.config.isEnabled Kbuild.Requirement.native
  name : ∃ name, ModuleName.ofValues (s.value .patches) (s.value .name) v.progress.native = .ok name ∧
    v.module.path = under (under w.scratch "patch") (name ++ ".ko")
  harvest : ∃ tree hv, (differential s tree w).Gives seen ps hv bs ∧
    bs.map Build.brief <:+ (differential s tree w).schedule ps ∧ v.undefined = hv.undefined

theorem assemble_yields {p : Progress} {a : Assembler} {layout : Layout} {name : String}
    {w : Workspace} {s₀ : Settings} (hw : Owned h mine seen s₀ w) :
    Yields h (fun t => Fresh t ∧ I t) (assemble p a layout name w)
      (fun r t => ∃ ps bs, patchesOf h p.settings = .ok ps ∧
        (∃ tree hv, (differential p.settings tree w).Gives seen ps hv bs ∧
          bs.map Build.brief <:+ (differential p.settings tree w).schedule ps ∧
            r.2 = hv.undefined) ∧
        r.1.path = under (under w.scratch "patch") (name ++ ".ko") ∧ Posed ps false bs t ∧ I t)
      fun t => Traced h p.settings t ∧ I t := by
  have end_ : ∀ t, Fresh t ∧ I t → Traced h p.settings t ∧ I t := fun t ht => ⟨ht.1.traced, ht.2⟩
  refine Leads.then (Robust.textOf _) (fun tree => ?_) end_
  refine (harvest_yields hI hw).bind fun hv => Yields.some fun ps => Yields.some fun bs => ?_
  refine Yields.given fun hps => Yields.given fun hg => Yields.given fun hs => ?_
  have end_ : ∀ t, Posed ps false bs t ∧ I t → Traced h p.settings t ∧ I t := fun t ht =>
    ⟨⟨_, .inr ⟨tree, w, ps, hps, rfl⟩, ht.1.scheduled hs⟩, ht.2⟩
  have joined : ∀ outside : Option String, Yields h (fun t => Posed ps false bs t ∧ I t) (do
      let r := Kbuild.Resolver.ofTree (← read).cwd tree (← textOf p.settings .vmlinux) outside
      let m ← (aggregate p a layout name tree w).assemble r hv.objects hv.original hv.patched
      return (← Act.ofExcept m.result, hv.undefined) : Act (PatchModule × List String))
      (fun r t => ∃ ps bs, patchesOf h p.settings = .ok ps ∧
        (∃ tree hv, (differential p.settings tree w).Gives seen ps hv bs ∧
          bs.map Build.brief <:+ (differential p.settings tree w).schedule ps ∧
            r.2 = hv.undefined) ∧
        r.1.path = under (under w.scratch "patch") (name ++ ".ko") ∧ Posed ps false bs t ∧ I t)
      fun t => Traced h p.settings t ∧ I t := by
    intro outside
    refine Leads.then Keeps.read (fun host => ?_) end_
    refine Leads.then (Robust.textOf _) (fun image => ?_) end_
    refine ((hI.posed.assembleModule (a := aggregate p a layout name tree w) hw.checksum
      fun o ho => hw.output _ (hg.named o ho)).mono (fun _ => id) (fun _ _ => id) end_).bind
        fun m => Yields.given fun hm => ?_
    refine Yields.bind (S := fun v t => v.path = under (under w.scratch "patch") (name ++ ".ko") ∧
      Posed ps false bs t ∧ I t) (.ofExcept (fun v hv t ht => ⟨hm v hv, ht⟩) end_) fun v => ?_
    exact .pure fun t ht => ⟨ps, bs, hps, ⟨tree, hv, hg, hs, rfl⟩, ht⟩
  refine Leads.then (Keeps.present _) (fun found => ?_) end_
  dsimp only
  split
  · exact .fail_bind end_
  · split
    · exact Leads.then ((Robust.textOf _).bind fun _ => .pure _) joined end_
    · exact Leads.then (Keeps.pure _) joined end_

theorem probe_yields (p : Progress) : Yields h (fun t => Fresh t ∧ I t) (probe p)
    (fun r t => ModuleName.ofValues (p.settings.value .patches) (p.settings.value .name) p.native =
      .ok r.1 ∧ Fresh t ∧ I t) fun t => Fresh t ∧ I t := by
  have hF := fresh_robust hI
  refine Yields.bind (S := fun name t => ModuleName.ofValues (p.settings.value .patches)
    (p.settings.value .name) p.native = .ok name ∧ Fresh t ∧ I t)
    (.ofExcept (fun v hv t ht => ⟨hv, ht⟩) fun _ => id) fun name => Yields.given fun hname => ?_
  refine (hF.info _ _).then (fun _ => ?_) fun _ => id
  refine Leads.then (Robust.textOf _) (fun image => ?_) fun _ => id
  refine Leads.then (Keeps.ofExcept _) (fun arch => ?_) fun _ => id
  refine (hF.probeLayout _ _ _).then (fun layout => ?_) fun _ => id
  exact .pure fun t ht => ⟨hname, ht⟩

/-- The stages before the check: they give a module and leave the patches out, or they fail. -/
theorem prepared_yields {w : Workspace} {a : Assembler} (hw : Owned h mine seen s w) :
    Yields h (fun t => Fresh t ∧ I t) (prepared w a s)
      (fun v t => ∃ ps bs, Finding h seen s w v ps bs ∧ Posed ps false bs t ∧ I t)
      fun t => Traced h s t ∧ I t := by
  have hF := fresh_robust hI
  have end_ : ∀ t, Fresh t ∧ I t → Traced h s t ∧ I t := fun t ht => ⟨ht.1.traced, ht.2⟩
  have sourced : Yields h (fun t => Fresh t ∧ I t) (prepareSource s)
      (fun s' t => Sourced s s' ∧ Fresh t ∧ I t) fun t => Traced h s t ∧ I t :=
    ⟨fun ht hr => ⟨prepareSource_sourced hr, (hF.prepareSource hw.source).eq ht hr⟩,
      fun ht hr => end_ _ ((hF.prepareSource hw.source).eq ht hr)⟩
  refine sourced.bind fun s' => Yields.given fun hs => ?_
  refine Leads.then Robust.validate (fun _ => ?_) end_
  refine hF.readConfig.then (fun c => ?_) end_
  let p : Progress := ⟨s', c.isEnabled Kbuild.Requirement.native,
    c.isEnabled Kbuild.Requirement.paravirt, none, none⟩
  refine (hF.checkTools (p := p)).then (fun _ => ?_) end_
  refine ((probe_yields hI p).mono (fun _ => id) (fun _ _ => id) end_).bind fun r => ?_
  refine Yields.given fun hname => ?_
  refine ((assemble_yields hI (p := { p with layout := some r.2 }) hw).mono (fun _ => id)
    (fun _ _ => id) fun t ht => ⟨hs.traced ht.1, ht.2⟩).bind fun m => ?_
  refine .pure fun t ⟨ps, bs, hps, ⟨tree, hv, hg, hb, hu⟩, hpath, ht⟩ => ⟨ps, bs, ?_, ht⟩
  rw [hs .patches nofun nofun nofun, hs .name nofun nofun nofun] at hname
  refine ⟨hs, hs.patchesOf ▸ hps, rfl, ⟨r.1, hname, hpath⟩, tree, hv, ?_, ?_, hu⟩
  · rwa [← hs.differential]
  · rwa [← hs.differential]

end Sturdy

end Pipeline

end Hotpatch
