import Hotpatch.Pipeline
import Hotpatch.Proofs.Pipeline.Collecting
import Hotpatch.Proofs.Patch.Operations

/-! The builds of a run and the patches they see. `builds` reads them off the events. Between two
operations on the patches a run is `Posed`: everything is in or everything is out, and the builds so
far are known; where the run has failed, what is left of this is `Scheduled`. -/

namespace Hotpatch

open Act Series

/-- A build with its ending, and the patches that were in the tree, in order of application. -/
structure Build where
  start : Start
  ending : Ending
  patches : List String

def Build.brief (b : Build) : Start × List String := (b.start, b.patches)

/-- The builds of a run, the last first. -/
def builds : List Event → List Build
  | [] => []
  | .ran s r :: past =>
    if s.isBuild then ⟨s, r, (standing past).reverse⟩ :: builds past else builds past
  | _ :: past => builds past

theorem builds_append {new past : List Event} (hn : ∀ e ∈ new, e.isBuild = false) :
    builds (new ++ past) = builds past := by
  induction new with
  | nil => rfl
  | cons e new ih =>
    have he := hn e (by simp)
    have ih := ih fun e he => hn e (List.mem_cons_of_mem _ he)
    cases e with
    | ran s r =>
      rw [List.cons_append, builds, if_neg (by simpa [Event.isBuild] using he)]
      exact ih
    | _ => exact ih

theorem builds_cons {s : Start} {r : Ending} {past : List Event} (hs : s.isBuild = true) :
    builds (.ran s r :: past) = ⟨s, r, (standing past).reverse⟩ :: builds past := by
  rw [builds, if_pos hs]

namespace Series

variable {h : Host} {t t' : Site} {new : List Event}

/-- Everything is in or everything is out, and no revert has failed. -/
structure Posed (ps : List String) (inside : Bool) (bs : List Build) (t : Site) : Prop
    extends AtRest t where
  clean : Clean t.events
  patches : t.series.patches = ps
  full : inside = true → t.series.count = ps.length
  out : inside = false → t.series.count = 0 ∧ t.series.phase ≠ .applied
  builds : builds t.events = bs

/-- What holds wherever a run ends: the builds are some of those of a schedule, from its start. -/
structure Scheduled (sched : List (Start × List String)) (t : Site) : Prop extends AtRest t where
  builds : (builds t.events).map Build.brief <:+ sched

variable {ps : List String} {inside : Bool} {bs : List Build}
variable {sched : List (Start × List String)}

/-- A step on which no revert fails may change the pose. -/
theorem Posed.advance {inside' : Bool} (ht : Posed ps inside bs t) (hr : AtRest t')
    (ha : Advance t t' new) (hclean : Clean new)
    (hfull : inside' = true → t'.series.count = ps.length)
    (hout : inside' = false → t'.series.count = 0 ∧ t'.series.phase ≠ .applied) :
    Posed ps inside' bs t' where
  toAtRest := hr
  clean := by
    rw [ha.events]
    exact clean_append.2 ⟨hclean, ht.clean⟩
  patches := ha.patches.trans ht.patches
  full := hfull
  out := hout
  builds := by rw [ha.events, builds_append ha.unbuilt, ht.builds]

theorem Posed.aside (ht : Posed ps inside bs t) (ha : Aside t t') : Posed ps inside bs t' := by
  obtain ⟨new, hadv, hclean, -⟩ := ha.advance
  have hs : t'.series = t.series := ha.1
  refine ht.advance (ht.toAtRest.aside ha) hadv hclean ?_ ?_ <;> rw [hs]
  · exact ht.full
  · exact ht.out

theorem Scheduled.advance (ht : Scheduled sched t) (hr : AtRest t') (ha : Advance t t' new) :
    Scheduled sched t' := by
  refine ⟨hr, ?_⟩
  rw [ha.events, builds_append ha.unbuilt]
  exact ht.builds

theorem Scheduled.aside (ht : Scheduled sched t) (ha : Aside t t') : Scheduled sched t' := by
  obtain ⟨new, hadv, -⟩ := ha.advance
  exact ht.advance (ht.toAtRest.aside ha) hadv

theorem Posed.scheduled (ht : Posed ps inside bs t)
    (hb : bs.map Build.brief <:+ sched) : Scheduled sched t := by
  refine ⟨ht.toAtRest, ?_⟩
  rw [ht.builds]
  exact hb

/-- What stands is what the pose says. -/
theorem Posed.standing (ht : Posed ps inside bs t) :
    standing t.events = if inside then ps.reverse else [] := by
  rw [standing_eq_stack ht.orderly ht.clean]
  cases inside with
  | true => rw [ht.stack_full (by rw [ht.full rfl, ht.patches]), ht.patches]; rfl
  | false => rw [ht.stack_nil (ht.out rfl).1]; rfl

theorem patchUse?_streamed {s : Start} {v : List (String × String)} (hs : s.mode = .streamed v) :
    s.patchUse? = none := by
  unfold Start.patchUse?
  split <;> first | rfl | cases hs

/-- A build is noted with the patches of the pose. -/
theorem Posed.built {s : Start} {v : List (String × String)} (ht : Posed ps inside bs t)
    (hs : s.cwd.isSome = true) (hm : s.mode = .streamed v) (r : Ending) (hser : t'.series = t.series)
    (he : t'.events = .ran s r :: t.events) :
    Posed ps inside (⟨s, r, if inside then ps else []⟩ :: bs) t' := by
  have hu : ∀ e ∈ [Event.ran s r], e.patchStart? = none :=
    fun e he => List.mem_singleton.1 he ▸ patchUse?_streamed hm
  refine ⟨ht.toAtRest.of_unused hser he hu, ?_, ?_, ?_, ?_, ?_⟩
  · rw [he, ← List.singleton_append]
    exact clean_append.2 ⟨clean_of_unused hu, ht.clean⟩
  · rw [hser, ht.patches]
  · rw [hser]
    exact ht.full
  · rw [hser]
    exact ht.out
  · rw [he, builds_cons (by simp [Start.isBuild, hs, hm]), ht.standing, ht.builds]
    cases inside <;> simp

end Series

namespace Differential

/-- The command line of every build. -/
def argv (b : Differential) : Except Fault (List String) :=
  b.make.argv b.targets b.jobs b.extra >>= Json.allTexts

def started (b : Differential) (argv : List String) (instrumented : Bool) : Start :=
  ⟨argv, some b.tree, .streamed (environment instrumented)⟩

/-- The builds that a run is to make, the last first, and the patches that each is to see. -/
def schedule (b : Differential) (ps : List String) : List (Start × List String) :=
  match b.argv with
  | .ok argv => [(b.started argv false, []), (b.started argv true, ps), (b.started argv false, [])]
  | .error _ => []

/-- A build more than before, which succeeded, and what it printed. -/
def Adds (b : Differential) (instrumented : Bool) (ps : List String) (bs : List Build)
    (output : List String) (bs' : List Build) : Prop :=
  ∃ argv o, b.argv = .ok argv ∧ output = Command.linesOf o ∧
    bs' = ⟨b.started argv instrumented, .ok o, ps⟩ :: bs

/-- The build with the patches, the symbols it left undefined and the objects it changed. -/
def Shows (b : Differential) (seen : String → Prop) (ps : List String) (bs : List Build)
    (r : List String × Fingerprints.Comparison) (bs' : List Build) : Prop :=
  (∃ output, b.Adds true ps bs output bs' ∧ r.1 = Diagnostic.undefined output) ∧
    ∀ p, p ∈ r.2.changed ∨ p ∈ r.2.new → Named seen p

/-- What a harvest tells about the builds it comes from: its symbols are those of the only build
with the patches. -/
structure Gives (b : Differential) (seen : String → Prop) (ps : List String) (v : Harvest)
    (bs : List Build) : Prop where
  named : ∀ o ∈ v.objects, Named seen o.path
  original : v.original = b.original
  patched : v.patched = b.patched
  symbols : ∃ argv o, b.argv = .ok argv ∧ v.undefined = Diagnostic.undefined (Command.linesOf o) ∧
    ⟨b.started argv true, .ok o, ps⟩ ∈ bs ∧
      ∀ x ∈ bs, x.start = b.started argv false ∨ x = ⟨b.started argv true, .ok o, ps⟩

end Differential

namespace Sturdy

open Series Differential

variable {h : Host} {mine seen : String → Prop} {I : Site → Prop} (hI : Sturdy h mine seen I)
variable {ps : List String} {inside : Bool} {bs : List Build} {sched : List (Start × List String)}
variable {b : Differential}
include hI

theorem posed : Robust h mine seen fun t => Posed ps inside bs t ∧ I t :=
  hI.toRobust.beside fun _ _ => Posed.aside

theorem apply_poses (hs : bs.map Build.brief <:+ sched) :
    Yields h (fun t => Posed ps false bs t ∧ I t) Series.apply
      (fun _ t => Posed ps true bs t ∧ I t) fun t => Scheduled sched t ∧ I t := by
  refine .of_eq fun t ⟨ht, hi⟩ => ?_
  obtain ⟨r, t', new, hrun, hr⟩ := apply_raises h ht.toAtRest
  have hi : I t' := hI.apply.eq hi hrun
  rcases r with e | u
  · exact .inr ⟨e, t', hrun, (ht.scheduled hs).advance hr.atRest hr.advance, hi⟩
  · obtain ⟨hc, hcl⟩ := hr.ok rfl
    refine .inl ⟨u, t', hrun, ht.advance hr.atRest hr.advance hcl (fun _ => ?_) nofun, hi⟩
    rw [hc, ht.patches]

theorem revertAll_poses (hs : bs.map Build.brief <:+ sched) :
    Yields h (fun t => Posed ps inside bs t ∧ I t) Series.revertAll
      (fun _ t => Posed ps false bs t ∧ I t) fun t => Scheduled sched t ∧ I t := by
  refine .of_eq fun t ⟨ht, hi⟩ => ?_
  obtain ⟨r, t', new, hrun, hr⟩ := revertAll_empties h ht.toAtRest
  have hi : I t' := hI.revertAll.eq hi hrun
  rcases r with e | u
  · exact .inr ⟨e, t', hrun, (ht.scheduled hs).advance hr.atRest hr.advance, hi⟩
  · obtain ⟨hc, hp, hcl⟩ := hr.ok rfl
    exact .inl ⟨u, t', hrun, ht.advance hr.atRest hr.advance hcl nofun fun _ => ⟨hc, hp⟩, hi⟩

/-- A block between putting the series in and taking it out; it may build. -/
theorem during_poses {α : Type} {body : Act α} {X : α → List Build → Prop}
    (hs : bs.map Build.brief <:+ sched)
    (hb : Yields h (fun t => Posed ps true bs t ∧ I t) body
      (fun a t => ∃ bs', X a bs' ∧ bs'.map Build.brief <:+ sched ∧ Posed ps true bs' t ∧ I t)
      fun t => Scheduled sched t ∧ I t) :
    Yields h (fun t => Posed ps false bs t ∧ I t) (Series.during body)
      (fun a t => ∃ bs', X a bs' ∧ bs'.map Build.brief <:+ sched ∧ Posed ps false bs' t ∧ I t)
      fun t => Scheduled sched t ∧ I t := by
  have after : ∀ e, Yields h (fun t => Scheduled sched t ∧ I t) (Series.revertAfter e : Act α)
      (fun a t => ∃ bs', X a bs' ∧ bs'.map Build.brief <:+ sched ∧ Posed ps false bs' t ∧ I t)
      fun t => Scheduled sched t ∧ I t := by
    refine fun e => .fails fun t ⟨ht, hi⟩ => ?_
    obtain ⟨e', t', new, hrun, hr, hadv⟩ := revertAfter_fails α h e ht.toAtRest
    exact ⟨e', t', hrun, ht.advance hr hadv, (hI.revertAfter e).eq hi hrun⟩
  refine (hI.apply_poses hs).bind fun _ => (Yields.attempt hb).bind fun r => ?_
  rcases r with e | a
  · exact (after e).mono (fun t ht => ht.2 e rfl) (fun _ _ => id) fun _ => id
  · refine Yields.mono (P := fun t => ∃ bs', X a bs' ∧ bs'.map Build.brief <:+ sched ∧
      Posed ps true bs' t ∧ I t) (Yields.some fun bs' => Yields.given fun hx => Yields.given
        fun hs' => ?_) (fun t ht => ht.1 a rfl) (fun _ _ => id) fun _ => id
    exact (hI.revertAll_poses hs').bind fun _ => .pure fun t ht => ⟨bs', hx, hs', ht⟩

/-- One build: it fails, or it is noted with what it printed. -/
theorem pass_poses
    (hc : ∀ name, isCoreName name = true → seen name → Within mine (under b.work name))
    (hs : bs.map Build.brief <:+ sched) {instrumented : Bool}
    (hn : ∀ argv, b.argv = .ok argv →
      (b.started argv instrumented, if inside then ps else []) :: bs.map Build.brief <:+ sched)
    (stage : String) :
    Yields h (fun t => Posed ps inside bs t ∧ I t) (b.pass stage instrumented)
      (fun r t => ∃ bs', b.Adds instrumented (if inside then ps else []) bs r.output bs' ∧
        bs'.map Build.brief <:+ sched ∧ Posed ps inside bs' t ∧ I t)
      fun t => Scheduled sched t ∧ I t := by
  have made : Yields h (fun t => Posed ps inside bs t ∧ I t)
      (b.make.build b.tree b.targets b.jobs (environment instrumented) b.extra)
      (fun r t => ∃ bs', b.Adds instrumented (if inside then ps else []) bs r.output bs' ∧
        bs'.map Build.brief <:+ sched ∧ Posed ps inside bs' t ∧ I t)
      fun t => Scheduled sched t ∧ I t := by
    refine Yields.bind (S := fun argv t => b.argv = .ok argv ∧ Posed ps inside bs t ∧ I t)
      (.ofExcept (fun v hv t ht => ⟨hv, ht⟩) fun t ht => ⟨ht.1.scheduled hs, ht.2⟩) fun argv => ?_
    refine Yields.given fun hargv => ?_
    refine (hI.posed.run_yields (J := fun r t => Posed ps inside
      (⟨b.started argv instrumented, r, if inside then ps else []⟩ :: bs) t ∧ I t)
      (fun _ => hI.posed.toHeard) (fun t ht => ⟨ht.1.built rfl rfl _ rfl rfl, hI.launchAny _ t ht.2⟩)
      (fun t ht => ⟨ht.1.scheduled hs, ht.2⟩) fun r t ht =>
        ⟨ht.1.scheduled (hn argv hargv), ht.2⟩).mono (fun _ => id) ?_ fun _ => id
    rintro r t ⟨o, rfl, ht⟩
    exact ⟨_, ⟨argv, o, hargv, rfl, rfl⟩, hn argv hargv, ht⟩
  refine made.bind fun r => Yields.some fun bs' => Yields.given fun hadd => Yields.given fun hs' => ?_
  have judged : Yields h (fun t => Posed ps inside bs' t ∧ I t) (do
      if r.succeeded then return r
      Act.fail (.build (stage ++ " failed with status " ++ toString r.status)) : Act Command.Result)
      (fun r t => ∃ bs', b.Adds instrumented (if inside then ps else []) bs r.output bs' ∧
        bs'.map Build.brief <:+ sched ∧ Posed ps inside bs' t ∧ I t)
      fun t => Scheduled sched t ∧ I t := by
    split
    · exact .pure fun t ht => ⟨bs', hadd, hs', ht⟩
    · exact .fail fun t ht => ⟨ht.1.scheduled hs', ht.2⟩
  have end_ : ∀ t, Posed ps inside bs' t ∧ I t → Scheduled sched t ∧ I t :=
    fun t ht => ⟨ht.1.scheduled hs', ht.2⟩
  dsimp only
  split
  · refine (hI.posed.preserveCore hc).then (fun _ => ?_) end_
    exact .fail_bind end_
  · exact judged

/-- The build without the patches, and the fingerprints after it. -/
theorem baseline_poses
    (hc : ∀ name, isCoreName name = true → seen name → Within mine (under b.work name)) :
    Yields h (fun t => Posed ps false [] t ∧ I t) b.baseline
      (fun _ t => ∃ bs, (∃ output, b.Adds false [] [] output bs) ∧
        bs.map Build.brief <:+ b.schedule ps ∧ Posed ps false bs t ∧ I t)
      fun t => Scheduled (b.schedule ps) t ∧ I t := by
  have hs : ([] : List Build).map Build.brief <:+ b.schedule ps := List.nil_suffix
  refine (hI.posed.info _ _).then (fun _ => ?_) fun t ht => ⟨ht.1.scheduled hs, ht.2⟩
  refine (hI.pass_poses hc hs (fun argv hargv => ?_) _).bind fun r => ?_
  · rw [schedule, hargv]
    exact ⟨[_, _], rfl⟩
  · refine Yields.some fun bs => Yields.given fun hadd => Yields.given fun hs => ?_
    exact (hI.posed.snapshot _).mono (fun _ => id)
      (fun _ t ht => ⟨bs, ⟨_, hadd⟩, hs, ht.2⟩) fun t ht => ⟨ht.1.scheduled hs, ht.2⟩

/-- The build with the patches, and what it changed. -/
theorem buildPatched_poses
    (hc : ∀ name, isCoreName name = true → seen name → Within mine (under b.work name))
    (hm : ∀ p, Named seen p → Within mine (under b.patched p)) {output : List String}
    (hb : b.Adds false [] [] output bs) (hs : bs.map Build.brief <:+ b.schedule ps)
    (before : Fingerprints) :
    Yields h (fun t => Posed ps true bs t ∧ I t) (b.buildPatched before)
      (fun r t => ∃ bs', b.Shows seen ps bs r bs' ∧ bs'.map Build.brief <:+ b.schedule ps ∧
        Posed ps true bs' t ∧ I t)
      fun t => Scheduled (b.schedule ps) t ∧ I t := by
  refine (hI.posed.info _ _).then (fun _ => ?_) fun t ht => ⟨ht.1.scheduled hs, ht.2⟩
  refine (hI.pass_poses hc hs (fun argv hargv => ?_) _).bind fun r => ?_
  · obtain ⟨argv₀, o₀, hargv₀, -, rfl⟩ := hb
    cases hargv₀.symm.trans hargv
    rw [schedule, hargv₀]
    exact ⟨[_], rfl⟩
  · refine Yields.some fun bs' => Yields.given fun hadd => Yields.given fun hs' => ?_
    have end_ : ∀ t, Posed ps true bs' t ∧ I t → Scheduled (b.schedule ps) t ∧ I t :=
      fun t ht => ⟨ht.1.scheduled hs', ht.2⟩
    refine ((hI.posed.snapshot _).mono (fun _ => id) (fun _ _ => id) end_).bind fun after => ?_
    refine Yields.given fun hafter => ?_
    let c := Fingerprints.compare before after
    have named : ∀ p, p ∈ c.changed ∨ p ∈ c.new → Named seen p := by
      intro p hp
      obtain ⟨f, hf, rfl⟩ := Fingerprints.compare_mem hp
      exact hafter f hf
    have staged : Yields h (fun t => Posed ps true bs' t ∧ I t) (do
        b.stageAll b.patched (c.changed ++ c.new)
        return (Diagnostic.undefined r.output, c) : Act (List String × Fingerprints.Comparison))
        (fun r t => ∃ bs', b.Shows seen ps bs r bs' ∧ bs'.map Build.brief <:+ b.schedule ps ∧
          Posed ps true bs' t ∧ I t)
        fun t => Scheduled (b.schedule ps) t ∧ I t := by
      refine (hI.posed.stageAll _ fun p hp => ?_).then (fun _ => ?_) end_
      · exact hm p (named p (List.mem_append.1 hp))
      · exact .pure fun t ht => ⟨bs', ⟨⟨_, hadd, rfl⟩, named⟩, hs', ht⟩
    dsimp only
    split
    · exact .fail_bind end_
    · exact staged

/-- The third build, without the patches again; it is left out where nothing changed. -/
theorem restore_poses
    (hc : ∀ name, isCoreName name = true → seen name → Within mine (under b.work name))
    (ho : ∀ p, Named seen p → Within mine (under b.original p)) {output output' : List String}
    {bs' : List Build} (hb : b.Adds false [] [] output bs) (hb' : b.Adds true ps bs output' bs')
    (hs : bs'.map Build.brief <:+ b.schedule ps) (before : Fingerprints) {changed : List String}
    (hp : ∀ p ∈ changed, Named seen p) :
    Yields h (fun t => Posed ps false bs' t ∧ I t) (b.restore before changed)
      (fun _ t => ∃ bs'', (bs'' = bs' ∨ ∃ output, b.Adds false [] bs' output bs'') ∧
        bs''.map Build.brief <:+ b.schedule ps ∧ Posed ps false bs'' t ∧ I t)
      fun t => Scheduled (b.schedule ps) t ∧ I t := by
  have end_ : ∀ t, Posed ps false bs' t ∧ I t → Scheduled (b.schedule ps) t ∧ I t :=
    fun t ht => ⟨ht.1.scheduled hs, ht.2⟩
  rw [restore]
  split
  · exact .pure fun t ht => ⟨bs', .inl rfl, hs, ht⟩
  · refine (hI.posed.info _ _).then (fun _ => ?_) end_
    refine (hI.pass_poses hc hs (fun argv hargv => ?_) _).bind fun r => ?_
    · obtain ⟨argv₀, o₀, hargv₀, -, rfl⟩ := hb
      obtain ⟨argv₁, o₁, hargv₁, -, rfl⟩ := hb'
      cases hargv₀.symm.trans hargv
      cases hargv₁.symm.trans hargv
      rw [schedule, hargv₀]
      exact ⟨[], rfl⟩
    · refine Yields.some fun bs'' => Yields.given fun hadd => Yields.given fun hs'' => ?_
      have end_ : ∀ t, Posed ps false bs'' t ∧ I t → Scheduled (b.schedule ps) t ∧ I t :=
        fun t ht => ⟨ht.1.scheduled hs'', ht.2⟩
      refine ((hI.posed.snapshot _).mono (fun _ => id) (fun _ _ => And.right) end_).bind fun _ => ?_
      refine Leads.yields ?_ end_ |>.mono (fun _ => id)
        (fun _ t ht => ⟨bs'', .inr ⟨_, hadd⟩, hs'', ht⟩) fun _ => id
      exact hI.posed.stageOriginals _ _ _ fun p hq => ho p (hp p hq)

/-- The two builds that follow the first. -/
theorem instrumented_poses
    (hc : ∀ name, isCoreName name = true → seen name → Within mine (under b.work name))
    (ho : ∀ p, Named seen p → Within mine (under b.original p))
    (hm : ∀ p, Named seen p → Within mine (under b.patched p)) {output : List String}
    (hb : b.Adds false [] [] output bs) (hs : bs.map Build.brief <:+ b.schedule ps)
    (before : Fingerprints) :
    Yields h (fun t => Posed ps false bs t ∧ I t) (b.instrumented (some before))
      (fun v t => ∃ bs', b.Gives seen ps v bs' ∧ bs'.map Build.brief <:+ b.schedule ps ∧
        Posed ps false bs' t ∧ I t)
      fun t => Scheduled (b.schedule ps) t ∧ I t := by
  have end_ : ∀ t, Posed ps false bs t ∧ I t → Scheduled (b.schedule ps) t ∧ I t :=
    fun t ht => ⟨ht.1.scheduled hs, ht.2⟩
  refine (hI.posed.ensureDirectory _).then (fun _ => ?_) end_
  refine (hI.posed.ensureDirectory _).then (fun _ => ?_) end_
  refine (hI.during_poses hs (hI.buildPatched_poses hc hm hb hs before)).bind fun r => ?_
  refine Yields.some fun bs' => Yields.given fun hr => Yields.given fun hs' => ?_
  obtain ⟨⟨output', hadd, hu⟩, hn⟩ := hr
  refine (hI.restore_poses hc ho hb hadd hs' before fun p hp => hn p (.inl hp)).bind fun _ => ?_
  refine Yields.some fun bs'' => Yields.given fun hlast => Yields.given fun hs'' => ?_
  have end_ : ∀ t, Posed ps false bs'' t ∧ I t → Scheduled (b.schedule ps) t ∧ I t :=
    fun t ht => ⟨ht.1.scheduled hs'', ht.2⟩
  refine (hI.posed.announce _ _).then (fun _ => .pure fun t ht => ⟨bs'', ?_, hs'', ht⟩) end_
  refine ⟨fun o hmem => ?_, rfl, rfl, ?_⟩
  · rcases List.mem_append.1 (List.mem_mergeSort.1 hmem) with hmem | hmem
    · obtain ⟨p, hp, rfl⟩ := List.mem_map.1 hmem
      exact hn p (.inl hp)
    · obtain ⟨p, hp, rfl⟩ := List.mem_map.1 hmem
      exact hn p (.inr hp)
  · obtain ⟨argv, o₀, hargv, -, rfl⟩ := hb
    obtain ⟨argv₁, o, hargv₁, rfl, rfl⟩ := hadd
    cases hargv.symm.trans hargv₁
    refine ⟨argv, o, hargv, hu, ?_⟩
    rcases hlast with rfl | ⟨_, argv₂, o₂, hargv₂, -, rfl⟩
    · exact ⟨.head _, by simp⟩
    · cases hargv.symm.trans hargv₂
      exact ⟨.tail _ (.head _), by simp⟩

end Sturdy

end Hotpatch
