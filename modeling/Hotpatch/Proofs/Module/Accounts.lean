import Mathlib.Data.List.Forall2
import Hotpatch.Proofs.Kbuild.Ascent
import Hotpatch.Proofs.Module.Faults
import Hotpatch.Proofs.Sturdy

/-! What becomes of every object that is compared. One examination settles one object, counts it, and
starts the tool for it or none at all; the survey of all objects is in step with these, whatever the
tool does and whatever the resolver knew before. -/

namespace Hotpatch

open Act

/-- A tool that was started, and how it went. -/
def Event.run? : Event → Option (Start × Ending)
  | .ran s e => some (s, e)
  | _ => none

/-- The tools that were started, by events newest first, in the order of their starts. -/
def runsOf (events : List Event) : List (Start × Ending) := (events.filterMap Event.run?).reverse

/-- Since an earlier site these tools were started, and no others. -/
def Ran (t₀ : Site) (runs : List (Start × Ending)) (t : Site) : Prop :=
  ∃ new, t.events = new ++ t₀.events ∧ runsOf new = runs

/-- What becomes of an object by the status of its comparison, and by whether it is ambiguous. -/
def Verdict.ofStatus (status : Int) (ambiguous : Bool) : Verdict :=
  if status = 0 then if ambiguous then .error else .changed
  else if status = 3 then .noChange else .error

namespace ChangedObject

def isFailed (o : ChangedObject) : Bool := o.verdict = some .error

def isTaken (o : ChangedObject) : Bool := o.verdict.any Verdict.isIncluded

/-- Whether the verdict is one that comes of a comparison. -/
def isCompared (o : ChangedObject) : Bool := o.verdict.any fun v => v ≠ .new && v ≠ .skipped

/-- What tells one object from another, and stays as it is. -/
def key (o : ChangedObject) : String × Bool := (o.path, o.isNew)

end ChangedObject

/-- The start of the tool for a comparison. -/
def Differ.start (d : Differ) (r : DiffRequest) : Except Fault Start := do
  return ⟨← d.argv r, none, .streamed (← d.layout.environment)⟩

/-- For a comparison the tool was started once or not at all. -/
def Differ.Tried (d : Differ) (q : DiffRequest) (t₀ : Site) (xs : List (Start × Ending))
    (t : Site) : Prop :=
  ∃ x : Option (Start × Ending), (∀ y ∈ x, d.start q = .ok y.1) ∧ Ran t₀ (xs ++ x.toList) t

namespace Aggregate

/-- The comparison of an object, and what became of the object by it. -/
structure Compared (a : Aggregate) (original patched : String) (r : Kbuild.Resolver)
    (o : ChangedObject) (run : Start × Ending) : Prop where
  start : ∃ owner, o.owner = some owner ∧
    a.differ.start (a.request original patched o owner) = .ok run.1
  ended : ∃ outcome, run.2 = .ok outcome ∧
    o.verdict = some (.ofStatus outcome.status (r.isAmbiguous o.path))

/-- Counts an object by its verdict; what goes into the module stands at `output`. -/
def Tally.count (c : Tally) (output : String) (o : ChangedObject) : Tally :=
  match o.verdict with
  | some .error => c.fail
  | some .changed | some .new => c.take output o
  | _ => c

/-- An object after it was examined: it has one verdict, was counted by it, and was compared if its
verdict comes of a comparison. For other objects no choice of parents was noted. -/
structure Accounted (a : Aggregate) (original patched : String) (r : Kbuild.Resolver) (c : Tally)
    (o : ChangedObject) (runs : List (Start × Ending)) (e : Examined) : Prop where
  key : e.object.key = o.key
  verdict : ∃ v, e.object.verdict = some v ∧ (v = .skipped ↔ isExcluded o.path = true)
  tally : ∃ output, e.tally = c.count output e.object
  others : ∀ x, x ≠ normalize o.path → e.resolver.chosen x = r.chosen x
  compared : List.Forall₂ (a.Compared original patched e.resolver)
    ([e.object].filter ChangedObject.isCompared) runs

/-- All objects after a survey that was not broken off. -/
structure Surveyed (a : Aggregate) (original patched : String) (r : Kbuild.Resolver) (c : Tally)
    (os : List ChangedObject) (runs : List (Start × Ending)) (s : Survey) : Prop where
  keys : s.objects.map ChangedObject.key = os.map ChangedObject.key
  verdicts : ∀ o ∈ s.objects, ∃ v, o.verdict = some v ∧ (v = .skipped ↔ isExcluded o.path = true)
  included : s.tally.included = c.included ++ s.objects.filter ChangedObject.isTaken
  outputs : s.tally.outputs.length =
    c.outputs.length + (s.objects.filter ChangedObject.isTaken).length
  errors : s.tally.errors = c.errors + s.objects.countP ChangedObject.isFailed
  others : ∀ x ∉ os.map fun o => normalize o.path, s.resolver.chosen x = r.chosen x
  compared : List.Forall₂ (a.Compared original patched s.resolver)
    (s.objects.filter ChangedObject.isCompared) runs

end Aggregate

theorem Fault.isOther_resolution {e : Fault} (he : Kbuild.isResolution e = true) : e.IsOther := by
  cases e with
  | failure f => cases f <;> first | rfl | cases he
  | _ => rfl

section Events

variable {h : Host} {mine : String → Prop} {t t₀ : Site} {xs : List (Start × Ending)}

theorem runsOf_cons (e : Event) (es : List Event) :
    runsOf (e :: es) = runsOf es ++ e.run?.toList := by
  cases he : e.run? <;> simp [runsOf, he]

theorem Ran.refl (t : Site) : Ran t [] t := ⟨[], rfl, rfl⟩

theorem ran_placid (t₀ : Site) (xs : List (Start × Ending)) :
    Placid h mine (fun _ => True) (Ran t₀ xs) := by
  refine .of_events (J := fun _ es => ∃ new, es = new ++ t₀.events ∧ runsOf new = xs) ?_
  rintro s past e he ⟨new, rfl, rfl⟩
  refine ⟨e :: new, rfl, ?_⟩
  cases e with
  | ran => cases he
  | _ => simp [runsOf_cons, Event.run?]

theorem Ran.launched (ht : Ran t₀ xs t) (s : Start) :
    Ran t₀ (xs ++ [(s, (h.react t.events s t.disk).ending)]) (Tool.launch s h t).2 := by
  obtain ⟨new, he, rfl⟩ := ht
  exact ⟨.ran s _ :: new, congrArg (_ :: ·) he, runsOf_cons _ new⟩

theorem Ran.untried (ht : Ran t₀ xs t) (d : Differ) (q : DiffRequest) : d.Tried q t₀ xs t :=
  ⟨none, by simp, by rwa [Option.toList_none, List.append_nil]⟩

theorem Ran.tried {d : Differ} {q : DiffRequest} {x : Start × Ending} (ht : Ran t₀ (xs ++ [x]) t)
    (hx : d.start q = .ok x.1) : d.Tried q t₀ xs t :=
  ⟨some x, by simpa using hx, ht⟩

end Events

namespace Aggregate

section Tally

variable {c : Tally} {output : String} {o : ChangedObject}

theorem count_eq : c.count output o =
    ⟨c.outputs ++ ([o].filter ChangedObject.isTaken).map fun _ => output,
      c.included ++ [o].filter ChangedObject.isTaken,
      c.errors + [o].countP ChangedObject.isFailed⟩ := by
  rcases hv : o.verdict with _ | v
  · simp [Tally.count, ChangedObject.isTaken, ChangedObject.isFailed, hv]
  · cases v <;> simp [Tally.count, Tally.take, Tally.fail, ChangedObject.isTaken,
      ChangedObject.isFailed, Verdict.isIncluded, hv]

end Tally

section Steps

variable {h : Host} {I : Site → Prop} {t₀ : Site} {xs : List (Start × Ending)} {a : Aggregate}
variable {original patched : String} {r : Kbuild.Resolver} {c : Tally} {o : ChangedObject}
variable {owner : Kbuild.Binary}

/-- The tool is started once for a comparison, and its status is the verdict. -/
theorem diff_ran (d : Differ) (q : DiffRequest) :
    Yields h (Ran t₀ xs) (d.diff q) (fun v t => ∃ start outcome, d.start q = .ok start ∧
      v = .ofStatus outcome.status false ∧ Ran t₀ (xs ++ [(start, .ok outcome)]) t)
      (d.Tried q t₀ xs) := by
  have hI := @ran_placid h (fun _ => True) t₀
  have untried : ∀ t, Ran t₀ xs t → d.Tried q t₀ xs t := fun t ht => ht.untried d q
  refine ((hI xs).makeDirs _).then (fun _ => ?_) untried
  refine Yields.bind (S := fun env t => d.layout.environment = .ok env ∧ Ran t₀ xs t)
    (.ofExcept (fun env he t ht => ⟨he, ht⟩) untried) fun env => Yields.given fun henv => ?_
  refine Yields.bind (S := fun argv t => d.argv q = .ok argv ∧ Ran t₀ xs t)
    (.ofExcept (fun argv ha t ht => ⟨ha, ht⟩) untried) fun argv => Yields.given fun hargv => ?_
  have hstart : d.start q = .ok ⟨argv, none, .streamed env⟩ := by
    rw [Differ.start, hargv, henv]
    rfl
  refine ((hI xs).run_yields (J := fun e => Ran t₀ (xs ++ [(⟨argv, none, .streamed env⟩, e)]))
    (fun _ => (hI _).toHeard) (fun t ht => ht.launched _) untried fun _ _ ht => ht.tried hstart).bind ?_
  intro result
  refine Yields.some fun outcome => Yields.given fun hresult => ?_
  subst hresult
  have told : ∀ v, v = Verdict.ofStatus outcome.status false → Yields h
      (Ran t₀ (xs ++ [(⟨argv, none, .streamed env⟩, .ok outcome)])) (pure v)
      (fun v t => ∃ start outcome, d.start q = .ok start ∧ v = .ofStatus outcome.status false ∧
        Ran t₀ (xs ++ [(start, .ok outcome)]) t) (d.Tried q t₀ xs) :=
    fun v hv => .pure fun t ht => ⟨_, outcome, hstart, hv, ht⟩
  rw [Differ.judge]
  dsimp only
  split
  · next hzero => exact told _ (by rw [Verdict.ofStatus, if_pos hzero]; rfl)
  · next hzero =>
    split
    · next hthree => exact told _ (by rw [Verdict.ofStatus, if_neg hzero, if_pos hthree])
    · next hthree =>
      refine ((hI _).error _ _).then (fun _ => told _ ?_) fun _ ht => ht.tried hstart
      rw [Verdict.ofStatus, if_neg hzero, if_neg hthree]

theorem refine_placid {mine : String → Prop} (hI : Placid h mine (fun _ => True) I) (status : Int) :
    Yields h I (refine r o (.ofStatus status false))
      (fun v t => v = .ofStatus status (r.isAmbiguous o.path) ∧ I t) I := by
  rw [refine]
  by_cases hzero : status = 0
  · subst hzero
    cases hamb : r.isAmbiguous o.path with
    | true =>
      rw [if_pos (by simp [Verdict.ofStatus])]
      split
      · exact .throw fun _ => id
      · exact (hI.error _ _).then (fun _ => .pure fun t ht => ⟨rfl, ht⟩) fun _ => id
    | false =>
      rw [if_neg (by simp)]
      exact .pure fun t ht => ⟨rfl, ht⟩
  · have hv : ∀ b, Verdict.ofStatus status b = .ofStatus status false := by
      intro b
      rw [Verdict.ofStatus, Verdict.ofStatus, if_neg hzero, if_neg hzero]
    have hne : Verdict.ofStatus status false ≠ .changed := by
      rw [Verdict.ofStatus, if_neg hzero]
      split <;> decide
    rw [if_neg (by simp [hne])]
    exact .pure fun t ht => ⟨(hv _).symm, ht⟩

theorem settle_ok {o' : ChangedObject} {v : Verdict} (ho : o.settle v = .ok o') :
    o' = { o with verdict := some v } := by
  rw [ChangedObject.settle] at ho
  split at ho
  · cases ho
  · exact (Except.ok.inj ho).symm

theorem settle_yields (v : Verdict) :
    Yields h I (Act.ofExcept (o.settle v)) (fun o' t => o' = { o with verdict := some v } ∧ I t) I :=
  .ofExcept (fun _ hv _ ht => ⟨settle_ok hv, ht⟩) fun _ => id

/-- What was made of an object whose owner is known; it was compared or taken over. -/
structure Judged (a : Aggregate) (original patched : String) (r : Kbuild.Resolver) (c : Tally)
    (o : ChangedObject) (runs : List (Start × Ending)) (p : ChangedObject × Tally) : Prop where
  key : p.1.key = o.key
  owner : p.1.owner = o.owner
  verdict : ∃ v, p.1.verdict = some v ∧ v ≠ .skipped
  tally : p.2 = c.count (under a.output o.path) p.1
  compared : List.Forall₂ (a.Compared original patched r) ([p.1].filter ChangedObject.isCompared) runs

theorem stage_yields {path : String} {mine : String → Prop} (hI : Placid h mine (fun _ => True) I)
    (hm : Within mine (under a.output path)) : Yields h I (Staging.stage patched path a.output)
      (fun s t => s = under a.output path ∧ I t) I := by
  refine (Keeps.attempt ((hI.makeDirs _).bind fun _ => hI.copy _ _ hm)).then (fun _ => ?_) fun _ => id
  split
  · exact .pure fun t ht => ⟨rfl, ht⟩
  · exact .fail fun _ => id
  · exact .throw fun _ => id

/-- A new object is taken over without a tool. -/
theorem takeNew_judged :
    Yields h (Ran t₀ xs) (a.takeNew patched c o)
      (fun p t => Judged a original patched r c o [] p ∧ Ran t₀ xs t) (Ran t₀ xs) := by
  have hI := @ran_placid h (fun _ => True) t₀ xs
  refine (stage_yields hI ⟨trivial, fun _ _ => trivial⟩).bind fun output => Yields.given ?_
  rintro rfl
  refine (settle_yields .new).bind fun o' => Yields.given ?_
  rintro rfl
  refine (hI.info _ _).then (fun _ => .pure fun t ht => ?_) fun _ => id
  exact ⟨⟨rfl, rfl, ⟨_, rfl, nofun⟩, rfl, .nil⟩, ht⟩

theorem contrast_judged (howner : o.owner = some owner) :
    Yields h (Ran t₀ xs) (a.contrast original patched r c o owner)
      (fun p t => ∃ run, Judged a original patched r c o [run] p ∧ Ran t₀ (xs ++ [run]) t)
      (a.differ.Tried (a.request original patched o owner) t₀ xs) := by
  refine (diff_ran a.differ (a.request original patched o owner)).bind fun v => ?_
  refine Yields.some fun start => Yields.some fun outcome => Yields.given fun hstart =>
    Yields.given ?_
  rintro rfl
  have hI := @ran_placid h (fun _ => True) t₀ (xs ++ [(start, .ok outcome)])
  have tried : ∀ t, Ran t₀ (xs ++ [(start, .ok outcome)]) t →
      a.differ.Tried (a.request original patched o owner) t₀ xs t := fun t ht => ht.tried hstart
  refine ((refine_placid hI outcome.status).mono (fun _ => id) (fun _ _ => id) tried).bind fun v =>
    Yields.given fun hv => ?_
  refine ((settle_yields v).mono (fun _ => id) (fun _ _ => id) tried).bind fun o' => Yields.given ?_
  rintro rfl
  refine (hI.announceVerdict _ _ _).then (fun _ => .pure fun t ht => ⟨_, ?_, ht⟩) tried
  have hcompared : a.Compared original patched r { o with verdict := some v }
      (start, .ok outcome) := ⟨⟨owner, howner, hstart⟩, outcome, rfl, congrArg some hv⟩
  have hne : v ≠ .skipped ∧ v ≠ .new := by
    rw [hv, Verdict.ofStatus]
    split
    · split <;> decide
    · split <;> decide
  refine ⟨rfl, rfl, ⟨v, rfl, hne.1⟩, ?_, ?_⟩
  · cases v with
    | new => exact absurd rfl hne.2
    | _ => rfl
  · rw [List.filter_cons, if_pos (by simp [ChangedObject.isCompared, hne])]
    exact .cons hcompared .nil

theorem judge_judged (howner : o.owner = some owner) :
    Yields h (Ran t₀ xs) (a.judge original patched r c o owner)
      (fun p t => ∃ runs, Judged a original patched r c o runs p ∧ Ran t₀ (xs ++ runs) t)
      fun _ => True := by
  have judged : ∀ old : Bool, Yields h (Ran t₀ xs)
      (if old then a.contrast original patched r c o owner else a.takeNew patched c o)
      (fun p t => ∃ runs, Judged a original patched r c o runs p ∧ Ran t₀ (xs ++ runs) t)
      fun _ => True := by
    intro old
    split
    · exact (contrast_judged howner).mono (fun _ => id) (fun p t ⟨run, hj, ht⟩ => ⟨_, hj, ht⟩)
        fun _ _ => trivial
    · exact takeNew_judged.mono (fun _ => id)
        (fun p t ⟨hj, ht⟩ => ⟨[], hj, by rwa [List.append_nil]⟩) fun _ _ => trivial
  rw [judge]
  split
  · exact (Keeps.pure _).then judged fun _ _ => trivial
  · exact (Keeps.present _).then judged fun _ _ => trivial

/-- How a search ends on every tree, it ends on the tree of the site. -/
theorem perform_yields {α : Type} {s : Kbuild.Search α}
    {P : Except Fault α → Kbuild.Resolver → Prop} {mine seen : String → Prop}
    (hI : Placid h mine seen I) (hs : ∀ t : Kbuild.Tree, Kbuild.Search.Ends t r s P) :
    Yields h I (Kbuild.Search.perform r s) (fun p t => P p.1 p.2 ∧ I t) fun _ => True := by
  refine Keeps.disk.then (fun d => Keeps.read.then (fun w => ?_) fun _ _ => trivial)
    fun _ _ => trivial
  refine (Keeps.forM (fun _ => hI.emit _) _).then (fun _ => ?_) fun _ _ => trivial
  exact .pure fun t ht => ⟨hs ⟨d, w.cwd, ""⟩ [], ht⟩

/-- An examination goes to its end, or it was broken off by something that doesn't say how the
comparison came out. -/
theorem examine_accounted (ho : o.verdict = none) :
    Yields h (Ran t₀ xs) (a.examine original patched r c o)
      (fun e t => (∃ f, e.fault = some f ∧ f.IsOther ∧ e.object.key = o.key) ∨
        e.fault = none ∧ ∃ runs, Accounted a original patched r c o runs e ∧ Ran t₀ (xs ++ runs) t)
      fun _ => True := by
  have hI := @ran_placid h (fun _ => True) t₀ xs
  rw [examine]
  split
  · next hexcluded =>
    refine (hI.info _ _).then (fun _ => ?_) fun _ _ => trivial
    rw [ChangedObject.settle, ho]
    refine .pure fun t ht => .inr ⟨rfl, [], ⟨rfl, ⟨_, rfl, ?_⟩, ⟨"", rfl⟩, fun _ _ => rfl, .nil⟩, ?_⟩
    · simp [hexcluded]
    · rwa [List.append_nil]
  · next hexcluded =>
    refine (perform_yields hI fun t => Kbuild.Search.owner_frame t r o.path).bind fun p => ?_
    refine Yields.given ?_
    rintro ⟨hothers, hfails⟩
    rcases p with ⟨f | owner, r'⟩
    · refine .pure fun t _ => .inl ⟨f, rfl, ?_, rfl⟩
      rcases hfails f rfl with hres | ⟨e, rfl⟩
      · exact Fault.isOther_resolution hres
      · exact Fault.isOther_ofDisk e
    · refine ((judge_raises original patched r' c _ owner).attempted
        (judge_judged (o := { o with owner := some owner }) rfl)).bind fun v => ?_
      rcases v with f | ⟨o', c'⟩
      · exact .pure fun t ht => .inl ⟨f, rfl, ht.2 f rfl, rfl⟩
      · refine .pure fun t ht => .inr ⟨rfl, ?_⟩
        obtain ⟨runs, hj, hran⟩ := ht.1 _ rfl
        obtain ⟨v, hv, hne⟩ := hj.verdict
        refine ⟨runs, ⟨hj.key, ⟨v, hv, ?_⟩, ⟨_, hj.tally⟩, hothers, hj.compared⟩, hran⟩
        simp [hne, hexcluded]

/-- One object more before a survey. -/
theorem Accounted.survey {os : List ChangedObject} {runs runs' : List (Start × Ending)}
    {e : Examined} {s : Survey} (he : Accounted a original patched r c o runs e)
    (hs : Surveyed a original patched e.resolver e.tally os runs' s)
    (hnew : normalize o.path ∉ os.map fun o => normalize o.path) :
    Surveyed a original patched r c (o :: os) (runs ++ runs')
      { s with objects := e.object :: s.objects } := by
  obtain ⟨output, htally⟩ := he.tally
  have hpath : e.object.path = o.path := (Prod.mk.inj he.key).1
  have hfilter : ∀ p : ChangedObject → Bool,
      (e.object :: s.objects).filter p = [e.object].filter p ++ s.objects.filter p :=
    fun p => List.filter_append [e.object] s.objects
  refine ⟨?_, ?_, ?_, ?_, ?_, fun x hx => ?_, ?_⟩
  · rw [List.map_cons, List.map_cons, he.key, hs.keys]
  · refine List.forall_mem_cons.2 ⟨?_, hs.verdicts⟩
    rw [hpath]
    exact he.verdict
  · rw [hs.included, htally, count_eq, hfilter, List.append_assoc]
  · rw [hs.outputs, htally, count_eq, hfilter, List.length_append, List.length_append,
      List.length_map, Nat.add_assoc]
  · have hcount : (e.object :: s.objects).countP ChangedObject.isFailed =
        [e.object].countP ChangedObject.isFailed + s.objects.countP ChangedObject.isFailed := by
      rw [← List.countP_append, List.singleton_append]
    rw [hs.errors, htally, count_eq, hcount, Nat.add_assoc]
  · rw [List.map_cons, List.mem_cons, not_or] at hx
    rw [hs.others x hx.2, he.others x hx.1]
  · rw [hfilter]
    have hsame : s.resolver.isAmbiguous e.object.path = e.resolver.isAmbiguous e.object.path := by
      rw [hpath]
      exact hs.others _ hnew
    have hthis : ∀ o' ∈ [e.object].filter ChangedObject.isCompared, o' = e.object :=
      fun o' ho' => List.mem_singleton.1 (List.mem_filter.1 ho').1
    refine List.rel_append (List.Forall₂.imp ?_ ((List.forall₂_and_left _ _).2 ⟨hthis, he.compared⟩))
      hs.compared
    rintro o' run ⟨rfl, hstart, outcome, hended, hverdict⟩
    exact ⟨hstart, outcome, hended, by rw [hsame]; exact hverdict⟩

/-- The survey of all objects, from any tally on. -/
theorem survey_surveyed (os : List ChangedObject) :
    (os.map fun o => normalize o.path).Nodup → (∀ o ∈ os, o.verdict = none) →
    Yields h (Ran t₀ xs) (a.survey original patched r c os)
      (fun s t => (∃ f, s.fault = some f ∧ f.IsOther ∧
          s.objects.map ChangedObject.key = os.map ChangedObject.key) ∨
        s.fault = none ∧
          ∃ runs, Surveyed a original patched r c os runs s ∧ Ran t₀ (xs ++ runs) t)
      fun _ => True := by
  induction os generalizing r c xs with
  | nil =>
    refine fun _ _ => .pure fun t ht => .inr ⟨rfl, [], ⟨rfl, nofun, ?_, rfl, rfl, ?_, .nil⟩, ?_⟩
    · simp
    · exact fun _ _ => rfl
    · rwa [List.append_nil]
  | cons o os ih =>
    intro hdistinct hunset
    obtain ⟨hnew, hdistinct⟩ := List.nodup_cons.1 hdistinct
    obtain ⟨ho, hunset⟩ := List.forall_mem_cons.1 hunset
    refine (examine_accounted ho).bind fun e => ?_
    rcases hfault : e.fault with _ | f
    · refine Yields.mono (P := fun t => ∃ runs, Accounted a original patched r c o runs e ∧
        Ran t₀ (xs ++ runs) t) (Yields.some fun runs => Yields.given fun he => ?_)
        (fun t ht => ?_) (fun _ _ => id) fun _ => id
      · refine (ih hdistinct hunset).bind fun s => .pure fun t ht => ?_
        rcases ht with ⟨f, hf, hother, hkeys⟩ | ⟨hf, runs', hs, hran⟩
        · refine .inl ⟨f, hf, hother, ?_⟩
          rw [List.map_cons, List.map_cons, he.key, hkeys]
        · exact .inr ⟨hf, runs ++ runs', he.survey hs hnew, by rwa [← List.append_assoc]⟩
      · rcases ht with ⟨f, hf, -⟩ | ⟨-, hruns⟩
        · cases hf
        · exact hruns
    · refine .pure fun t ht => .inl ⟨f, rfl, ?_⟩
      rcases ht with ⟨f', hf, hother, hkey⟩ | ⟨hf, -⟩
      · obtain rfl := Option.some.inj hf
        refine ⟨hother, ?_⟩
        rw [List.map_cons, List.map_cons, hkey]
      · cases hf

end Steps

end Aggregate

end Hotpatch
