import Hotpatch.Host.Script
import Hotpatch.Proofs.Module.Accounts

/-! What the end of a comparison tells about the objects. A module holds exactly what changed and what
is new; where there is none because of the objects, the failure says how many of them failed, and
no tool but the one that compares was started. -/

namespace Hotpatch.Aggregate

open Act

variable {h : Host} {a : Aggregate} {t t' : Site}

/-- How a survey is concluded: the failures of a comparison are told by what was counted, before
anything is built. -/
inductive Concluded (s : Survey) (t : Site) : Except Fault PatchModule → Site → Prop
  | fault {f} : s.fault = some f → Concluded s t (.error f) t
  | failed : s.fault = none → s.tally.errors ≠ 0 → Concluded s t (.error (.failure (.diff
      (toString s.tally.errors ++ " error(s) encountered") s.tally.errors))) t
  | unchanged : s.fault = none → s.tally.errors = 0 → s.tally.outputs = [] →
      Concluded s t (.error (.failure (.diff "no functional changes found" 0))) t
  | built {m t'} : s.fault = none → s.tally.errors = 0 → s.tally.outputs ≠ [] →
      m.objects = s.tally.included → Concluded s t (.ok m) t'
  | broken {f t'} : f.IsOther → Concluded s t (.error f) t'

theorem build_takes {outputs : List String} {included : List ChangedObject} {m : PatchModule}
    (hr : a.build outputs included h t = (.ok m, t')) : m.objects = included :=
  (((sturdy_true h fun _ => True).toRobust.build trivial outputs included).ok trivial hr).1.2

theorem conclude_concluded (s : Survey) (t : Site) :
    Ends h (· = t) (a.conclude s) (Concluded s t) := by
  rw [conclude]
  dsimp only
  split
  · next f hf =>
    refine .throw_bind ?_
    rintro _ rfl
    exact .fault hf
  · next hf =>
    have hnone : s.fault = none := Option.eq_none_iff_forall_not_mem.2 fun f hs => hf f hs
    split
    · next herrors =>
      refine .fail_bind ?_
      rintro _ rfl
      exact .failed hnone herrors
    · next herrors =>
      have hzero : s.tally.errors = 0 := not_not.1 herrors
      split
      · next hempty =>
        refine .fail_bind ?_
        rintro _ rfl
        exact .unchanged hnone hzero (List.isEmpty_iff.1 hempty)
      · next hempty =>
        refine .of_eq fun u r t' _ hr => ?_
        rcases r with f | m
        · exact .broken (build_raises _ _ _ _ _ hr)
        · exact .built hnone hzero (fun he => hempty (List.isEmpty_iff.2 he)) (build_takes hr)

section Total

variable {original patched : String} {r : Kbuild.Resolver} {c : Tally}

theorem perform_raises {α : Type} (E : Fault → Prop) (s : Kbuild.Search α) :
    Raises h E (Kbuild.Search.perform r s) :=
  .bind (.of_ok fun t => ⟨t.disk, t, rfl⟩) fun _ => .bind (.of_ok fun t => ⟨_, _, read_apply h t⟩)
    fun _ => (Raises.forM (fun _ => Log.emit_raises h _ _) _).bind fun _ => .pure _

theorem examine_raises (E : Fault → Prop) (o : ChangedObject) :
    Raises h E (a.examine original patched r c o) := by
  rw [examine]
  split
  · refine (Log.emit_raises h _ _).bind fun _ => ?_
    split <;> exact .pure _
  · refine (perform_raises E _).bind fun p => ?_
    split
    · exact .pure _
    · refine (Raises.attempt _).bind fun _ => ?_
      split <;> exact .pure _

theorem survey_raises (E : Fault → Prop) (os : List ChangedObject) :
    Raises h E (a.survey original patched r c os) := by
  induction os generalizing r c with
  | nil => exact .pure _
  | cons o os ih =>
    refine (examine_raises E o).bind fun e => ?_
    split
    · exact .pure _
    · exact ih.bind fun _ => .pure _

/-- What kept a module from being made is part of what is told. -/
theorem assemble_raises (E : Fault → Prop) (os : List ChangedObject) :
    Raises h E (a.assemble r os original patched) := by
  refine (Log.emit_raises h _ _).bind fun _ => (Raises.attempt _).bind fun _ => ?_
  split
  · exact .pure _
  · exact (survey_raises E os).bind fun _ => (Raises.attempt _).bind fun _ => .pure _

end Total

section Outcome

variable {original patched : String} {r : Kbuild.Resolver} {objects : List ChangedObject}

/-- What a result tells about the objects as they are then. -/
structure Accounts (a : Aggregate) (original patched : String)
    (objects : List ChangedObject) (t : Site) (s : Assembled) (t' : Site) : Prop where
  keys : s.objects.map ChangedObject.key = objects.map ChangedObject.key
  /-- With a module, every object has its verdict and none failed; the module is made of exactly those
  that are new or changed, and of these, none is ambiguous. -/
  module : ∀ m, s.result = .ok m →
    (∀ o ∈ s.objects, ∃ v, o.verdict = some v ∧ v ≠ .error ∧
      (v = .skipped ↔ isExcluded o.path = true)) ∧
    m.objects ≠ [] ∧ m.objects = s.objects.filter ChangedObject.isTaken ∧
    ∀ o ∈ s.objects, o.verdict = some .changed → s.resolver.isAmbiguous o.path = false
  /-- Where the comparison came to no module, the objects that failed are counted, and all that was
  started is the tool, once for each object that was compared: its status is the verdict. -/
  failure : ∀ message n, s.result = .error (.failure (.diff message n)) →
    (0 < n → n = s.objects.countP ChangedObject.isFailed) ∧
    (message = "no functional changes found" →
      ∀ o ∈ s.objects, o.verdict = some .skipped ∨ o.verdict = some .noChange) ∧
    ∃ runs, Ran t runs t' ∧ List.Forall₂ (a.Compared original patched s.resolver)
      (s.objects.filter ChangedObject.isCompared) runs

/-- Something else kept a module from being made. -/
theorem told_other {s : Assembled} {f : Fault} (hk : s.objects.map ChangedObject.key =
    objects.map ChangedObject.key) (hs : s.result = .error f) (hf : f.IsOther) :
    a.Accounts original patched objects t s t' := by
  refine ⟨hk, fun m hm => ?_, fun message n he => ?_⟩
  · cases hs.symm.trans hm
  · cases hs.symm.trans he
    cases hf

theorem not_failed_of_zero {s : List ChangedObject} (hs : s.countP ChangedObject.isFailed = 0)
    {o : ChangedObject} (ho : o ∈ s) : o.verdict ≠ some .error := by
  have := List.countP_eq_zero.1 hs o ho
  simpa [ChangedObject.isFailed] using this

theorem message_ne (n : Nat) :
    toString n ++ " error(s) encountered" ≠ "no functional changes found" := by
  intro h
  have := congrArg (fun s => s.toList.reverse.take 2) h
  simp at this

/-- What an object changed to be is known to be its own. -/
theorem changed_clear {os : List ChangedObject} {runs : List (Start × Ending)}
    (hs : List.Forall₂ (a.Compared original patched r) (os.filter ChangedObject.isCompared) runs)
    {o : ChangedObject} (ho : o ∈ os) (hv : o.verdict = some .changed) :
    r.isAmbiguous o.path = false := by
  have hall : ∀ o ∈ os.filter ChangedObject.isCompared,
      o.verdict = some .changed → r.isAmbiguous o.path = false := by
    refine ((List.forall₂_and_left _ runs).1 (hs.imp fun o run hcompared => ⟨?_, hcompared⟩)).1
    intro hchanged
    obtain ⟨outcome, -, hverdict⟩ := hcompared.ended
    rw [hchanged, Verdict.ofStatus] at hverdict
    cases hamb : r.isAmbiguous o.path with
    | false => rfl
    | true =>
      rw [hamb] at hverdict
      split at hverdict
      · cases hverdict
      · split at hverdict <;> cases hverdict
  exact hall o (List.mem_filter.2 ⟨ho, by simp [ChangedObject.isCompared, hv]⟩) hv

/-- How a survey that went to its end is told. -/
theorem told_surveyed {runs : List (Start × Ending)} {s : Survey} {u : Site}
    (hs : Surveyed a original patched r .zero objects runs s) (hf : s.fault = none)
    (hran : Ran t runs u) {v : Except Fault PatchModule} (hc : Concluded s u v t') :
    a.Accounts original patched objects t ⟨s.objects, s.resolver, v⟩ t' := by
  have herrors : s.tally.errors = s.objects.countP ChangedObject.isFailed := by
    rw [hs.errors]
    exact Nat.zero_add _
  have hincluded : s.tally.included = s.objects.filter ChangedObject.isTaken := hs.included
  have houtputs : s.tally.outputs = [] ↔ s.objects.filter ChangedObject.isTaken = [] := by
    rw [← List.length_eq_zero_iff, hs.outputs, ← List.length_eq_zero_iff]
    exact Nat.zero_add _ ▸ Iff.rfl
  cases hc with
  | fault hfault => exact nomatch hf.symm.trans hfault
  | broken hother => exact told_other hs.keys rfl hother
  | built _ hzero hne hm =>
    rw [herrors] at hzero
    refine ⟨hs.keys, fun m hm' => ?_, nofun⟩
    obtain rfl := Except.ok.inj hm'
    refine ⟨fun o ho => ?_, ?_, ?_, ?_⟩
    · obtain ⟨v, hv, hskip⟩ := hs.verdicts o ho
      refine ⟨v, hv, ?_, hskip⟩
      rintro rfl
      exact not_failed_of_zero hzero ho hv
    · rw [hm, hincluded]
      exact fun hnil => hne (houtputs.2 hnil)
    · rw [hm, hincluded]
    · exact fun o ho => changed_clear hs.compared ho
  | failed _ hne =>
    refine ⟨hs.keys, nofun, fun message n he => ?_⟩
    cases he
    exact ⟨fun _ => congrArg _ herrors, fun he => absurd he (message_ne _), runs, hran, hs.compared⟩
  | unchanged _ hzero hnil =>
    refine ⟨hs.keys, nofun, fun message n he => ?_⟩
    cases he
    refine ⟨nofun, fun _ o ho => ?_, runs, hran, hs.compared⟩
    obtain ⟨v, hv, -⟩ := hs.verdicts o ho
    have hleft : ∀ o ∈ s.objects, o.isTaken = false := by
      simpa [List.filter_eq_nil_iff] using houtputs.1 hnil
    have hout := hleft o ho
    have hsound := not_failed_of_zero (herrors ▸ hzero) ho
    rw [ChangedObject.isTaken, hv] at hout
    rw [hv] at hsound ⊢
    cases v with
    | noChange => exact .inr rfl
    | skipped => exact .inl rfl
    | changed | new => cases hout
    | error => exact absurd rfl hsound

/-- A survey that was broken off is told by what broke it off. -/
theorem told_broken {s : Survey} {u : Site} {f : Fault} (hf : s.fault = some f) (hother : f.IsOther)
    (hk : s.objects.map ChangedObject.key = objects.map ChangedObject.key)
    {v : Except Fault PatchModule} (hc : Concluded s u v t') :
    a.Accounts original patched objects t ⟨s.objects, s.resolver, v⟩ t' := by
  cases hc with
  | fault hfault =>
    obtain rfl := Option.some.inj (hf.symm.trans hfault)
    exact told_other hk rfl hother
  | broken hother => exact told_other hk rfl hother
  | failed hnone | unchanged hnone | built hnone => exact nomatch hf.symm.trans hnone

theorem assemble_yields (hdistinct : (objects.map fun o => normalize o.path).Nodup)
    (hunset : ∀ o ∈ objects, o.verdict = none) :
    Yields h (Ran t []) (a.assemble r objects original patched)
      (fun s t' => a.Accounts original patched objects t s t') fun _ => True := by
  have hI := @ran_placid h (fun _ => True) t []
  refine (hI.info _ _).then (fun _ => ?_) fun _ _ => trivial
  have hmade : Raises h Fault.IsOther (Staging.ensureDirectory a.output) :=
    (Raises.makeDirs Fault.isOther_ofDisk _).bind fun _ => .pure _
  refine (hmade.attempted ((hI.ensureDirectory _).yields fun _ _ => trivial)).bind fun v => ?_
  rcases v with f | p
  · exact .pure fun u hu => told_other rfl rfl (hu.2 f rfl)
  · refine ((survey_surveyed objects hdistinct hunset).mono (fun u hu => hu.1 p rfl)
      (fun _ _ => id) fun _ => id).bind fun s => ?_
    refine .of_eq fun u hu => .inl ⟨_, _, bind_ok (attempt_apply h u _), ?_⟩
    have hc := conclude_concluded (h := h) (a := a) s u u rfl
    rcases hu with ⟨f, hf, hother, hkeys⟩ | ⟨hf, runs, hs, hran⟩
    · exact told_broken hf hother hkeys hc
    · exact told_surveyed hs hf hran hc

/-- The accounts of a comparison balance, for all objects without verdicts and with different paths,
whatever the resolver knows and however the tools go. -/
theorem assemble_accounts (a : Aggregate) (r : Kbuild.Resolver) (objects : List ChangedObject)
    (original patched : String) (h : Host) (t : Site)
    (hdistinct : (objects.map fun o => normalize o.path).Nodup)
    (hunset : ∀ o ∈ objects, o.verdict = none) :
    ∃ s t', a.assemble r objects original patched h t = (.ok s, t') ∧
      a.Accounts original patched objects t s t' := by
  rcases hr : a.assemble r objects original patched h t with ⟨f | s, t'⟩
  · exact (assemble_raises (fun _ => False) objects _ _ _ hr).elim
  · exact ⟨s, t', rfl, (assemble_yields hdistinct hunset).ok (.refl t) hr⟩

end Outcome

/-- One object is excluded, and the tool fails on the other. -/
def Unsound.host : Host :=
  { cwd := ["w"], home := "/root", machine := "x86_64", cpus := none, environment := []
    hasTool := fun _ => true
    react := Script.react [("differ", [{ Script.Step.quiet with
      outcome := ⟨1, some "", some "", none, Script.noFamily⟩ }])] ["w"] }

def Unsound.site : Site :=
  { disk := ⟨[(["w"], .dir), (["w", "orig"], .dir), (["w", "orig", "x.o"], .file ⟨[], 0, 0⟩)], 1⟩
    events := [], records := [], sinks := [], console := [], series := .ofPatches "/w" "linux" [] }

def Unsound.aggregate : Aggregate :=
  { differ := ⟨.str "differ", .empty, false⟩
    assembler := ⟨.str "assembler", "ld", "objcopy", []⟩
    work := "out", moduleName := "fix", symvers := "symvers", shadow := false }

def Unsound.resolver : Kbuild.Resolver :=
  { Kbuild.Resolver.ofTree ["w"] "linux" "linux/vmlinux" none with
    known := [("x.o", ⟨"/w/linux/vmlinux", true⟩)] }

def Unsound.objects : List ChangedObject := [.fresh "init/version.o" false, .fresh "x.o" false]

theorem assemble_accounts_unsound : ∃ s t', Unsound.aggregate.assemble Unsound.resolver
      Unsound.objects "orig" "new" Unsound.host Unsound.site = (.ok s, t') ∧
    s.objects.countP ChangedObject.isFailed = 1 ∧
    ∃ runs, Ran Unsound.site runs t' ∧
      runs.length = (s.objects.filter ChangedObject.isCompared).length := by
  obtain ⟨s, t', hrun, haccounts⟩ := assemble_accounts Unsound.aggregate Unsound.resolver
    Unsound.objects "orig" "new" Unsound.host Unsound.site (by decide +kernel) (by decide)
  have hresult : (Unsound.aggregate.assemble Unsound.resolver Unsound.objects "orig" "new"
      Unsound.host Unsound.site).1.map Assembled.result =
        .ok (.error (.failure (.diff "1 error(s) encountered" 1))) := by decide +kernel
  rw [hrun] at hresult
  obtain ⟨hcount, -, runs, hran, hruns⟩ := haccounts.failure _ _ (Except.ok.inj hresult)
  have hone := hcount (by decide)
  exact ⟨s, t', hrun, by omega, runs, hran, hruns.length_eq.symm⟩

end Hotpatch.Aggregate
