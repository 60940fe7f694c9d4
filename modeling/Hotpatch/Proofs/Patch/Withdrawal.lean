import Hotpatch.Proofs.Sturdy

/-! Taking patches out, in whatever state the series is. Nothing goes in meanwhile, and every patch whose
revert fails is noted in the log. Of the faults that can come up, one is about a patch; all others are
lapses of the tools and of the file system. -/

namespace Hotpatch.Series

open Act

variable {h : Host} {t t' t'' : Site} {new new' : List Event}

def rephased (t : Site) (p : Phase) : Site := { t with series := { t.series with phase := p } }

theorem settle_run (h : Host) (t : Site) : settle h t =
    refreshIndex h (rephased t (if 0 < t.series.count then .applied else .reverted)) := by
  rw [settle, bind_ok (v := t.series) (u := t) rfl]
  exact bind_ok rfl

/-- How taking the patches out ended is told after the series is settled. -/
theorem revertAll_run {r : Except Fault (List String)} (hp : t.series.phase = .applied)
    (hr : revertEach t.series.appliedPatches.reverse h (rephased t .reverting) = (r, t')) :
    revertAll h t = (do
      settle
      blame (← Act.ofExcept r) : Act Unit) h t' := by
  rw [revertAll, bind_ok (v := t.series) (u := t) rfl, if_neg (by simp [hp]),
    bind_ok (u := rephased t .reverting) rfl]
  exact bind_ok (attempt_of hr)

theorem revertAll_unapplied (h : Host) (hp : t.series.phase ≠ .applied) :
    revertAll h t = (.ok (), t) := by
  rw [revertAll, bind_ok (v := t.series) (u := t) rfl, if_pos hp]
  rfl

/-- How git is told that files were written in place. -/
def refreshing (tree : String) : Start :=
  ⟨["git", "update-index", "-q", "--refresh"], some tree, .captured⟩

/-- The faults that say nothing about a patch, for the events they come with. -/
inductive Lapse (s : Series) (new : List Event) : Fault → Prop
  /-- A tool was not started. -/
  | refused {start : Start} {why : Refusal} : .ran start (.error why) ∈ new →
      Lapse s new (why.fault start.argv)
  /-- git failed, and there was no output to show. -/
  | silent {o : Outcome} : .ran (refreshing s.source) (.ok o) ∈ new → o.status ≠ 0 →
      o.output = none → Lapse s new (.lacking "NoneType" "strip")
  /-- A path was too long to be looked up. -/
  | long {path : String} : path ∈ s.patches ∨ path = under s.source ".git" → Disk.Overlong path →
      Lapse s new (.disk (.failed .nameTooLong path))

theorem Lapse.mono {s s' : Series} {e : Fault} (hs : s'.source = s.source)
    (hp : s'.patches = s.patches) (hn : new ⊆ new') (he : Lapse s new e) : Lapse s' new' e := by
  cases he with
  | refused hr => exact .refused (hn hr)
  | silent hr h0 hout => exact .silent (hn (hs ▸ hr)) h0 hout
  | long hpath hlong => exact .long (by rwa [hs, hp]) hlong

theorem Lapse.not_failure {s : Series} {w : Failure} : ¬ Lapse s new (.failure w) := by
  generalize hf : Fault.failure w = e
  intro he
  cases he with
  | refused => rename_i why _; cases why <;> cases hf
  | silent => cases hf
  | long => cases hf

/-- What taking patches out leaves: a fault that is no lapse is one of `B`. -/
structure Drawn {α : Type} (B : Fault → Prop) (t t' : Site) (new : List Event)
    (r : Except Fault α) : Prop where
  advance : Advance t t' new
  only : applications new = []
  noted : ∃ logged, t'.records = logged ++ t.records ∧
    ∀ e ∈ new, ∀ p, e.patchEnd? = some (.revert, p, false) → ∃ why, noteOf p (some why) ∈ logged
  fault : ∀ e, r = .error e → B e ∨ Lapse t.series new e
  tools : ∀ e ∈ new, e.isOfSeries = true

section Drawn

variable {α β γ : Type} {B : Fault → Prop} {r : Except Fault α} {r' : Except Fault β}

theorem Drawn.refl (B : Fault → Prop) (t : Site) {r : Except Fault α} (hr : ∀ e, r = .error e → B e) :
    Drawn B t t [] r :=
  ⟨.refl t, rfl, ⟨[], rfl, by simp⟩, fun e he => .inl (hr e he), by simp⟩

/-- One after the other; the result may be a fault of either. -/
theorem Drawn.trans {r'' : Except Fault γ} (h₁ : Drawn B t t' new r) (h₂ : Drawn B t' t'' new' r')
    (hr : ∀ e, r'' = .error e → r = .error e ∨ r' = .error e ∨ B e) :
    Drawn B t t'' (new' ++ new) r'' := by
  obtain ⟨logged, hrec, hnote⟩ := h₁.noted
  obtain ⟨logged', hrec', hnote'⟩ := h₂.noted
  refine ⟨h₁.advance.trans h₂.advance, ?_, ⟨logged' ++ logged, ?_, fun e he p hp => ?_⟩,
    fun e he => ?_, fun e he => (List.mem_append.1 he).elim (h₂.tools e) (h₁.tools e)⟩
  · rw [applications_append, h₁.only, h₂.only]
    rfl
  · rw [hrec', hrec, List.append_assoc]
  · rcases List.mem_append.1 he with he | he
    · obtain ⟨why, hwhy⟩ := hnote' e he p hp
      exact ⟨why, List.mem_append_left _ hwhy⟩
    · obtain ⟨why, hwhy⟩ := hnote e he p hp
      exact ⟨why, List.mem_append_right _ hwhy⟩
  · obtain he | he | he := hr e he
    · exact (h₁.fault e he).imp_right (·.mono rfl rfl (List.subset_append_right _ _))
    · refine (h₂.fault e he).imp_right fun hl => ?_
      exact hl.mono h₁.advance.source.symm h₁.advance.patches.symm (List.subset_append_left _ _)
    · exact .inl he

theorem Drawn.weaken {C : Fault → Prop} (h₁ : Drawn B t t' new r) (hb : ∀ e, B e → C e) :
    Drawn C t t' new r :=
  ⟨h₁.advance, h₁.only, h₁.noted, fun e he => (h₁.fault e he).imp_left (hb e), h₁.tools⟩

/-- The start of an operation may be another state of the series. -/
theorem Drawn.rebase (h₁ : Drawn B t t' new r) (he : t''.events = t.events)
    (hl : t''.records = t.records) (hs : t.series.source = t''.series.source)
    (hp : t.series.patches = t''.series.patches) : Drawn B t'' t' new r := by
  refine ⟨⟨?_, ?_, ?_, h₁.advance.unbuilt⟩, h₁.only, ?_, fun e hr => ?_, h₁.tools⟩
  · rw [he, h₁.advance.events]
  · rw [h₁.advance.source, hs]
  · rw [h₁.advance.patches, hp]
  · rw [hl]
    exact h₁.noted
  · exact (h₁.fault e hr).imp_right (·.mono hs.symm hp.symm (List.Subset.refl _))

end Drawn

/-- The patch tool's output is added to the log. -/
theorem usePatch_records (h : Host) (t : Site) (p : String) (u : Use) :
    t.records <:+ (usePatch p u h t).2.records :=
  (lasting_records h t.records).usePatch p u t (List.suffix_refl _)

theorem applications_used {p : String} {u : Use} (hu : u ≠ .apply) (ending : Ending) :
    applications [used t p u ending] = [] := by
  rw [applications_cons]
  rcases ending with r | o
  · rfl
  · have hend := patchEnd?_used_ok t p u o
    cases u with
    | apply => exact absurd rfl hu
    | trial => simp [Event.applied?, hend, applications]
    | revert => simp [Event.applied?, hend, applications]

theorem isOfSeries_used (t : Site) (p : String) (u : Use) (ending : Ending) :
    ∀ e ∈ [used t p u ending], e.isOfSeries = true := by
  intro e he
  rw [List.mem_singleton.1 he]
  cases u <;> rfl

/-- Each patch that is taken out leaves a note, and only a start that is refused ends the loop. -/
theorem revertEach_draws (h : Host) : ∀ (ps : List String) (t : Site), ∃ r t' new,
    revertEach ps h t = (r, t') ∧ Drawn (fun _ => False) t t' new r
  | [], t => ⟨.ok [], t, [], rfl, .refl _ t (by simp)⟩
  | p :: ps, t => by
    have hrec := usePatch_records h t p .revert
    obtain ⟨t₁, ending, hs₁, he₁, ⟨why, rfl, hrun⟩ | ⟨o, why, rfl, hrun, hwhy⟩⟩ :=
      usePatch_cases h t p .revert
    · rw [hrun] at hrec
      obtain ⟨logged, hlogged⟩ := hrec
      refine ⟨.error (why.fault (Use.revert.argv p)), t₁, _, ?_, .of_used hs₁ he₁,
        applications_used (by simp) _, ⟨logged, hlogged.symm, ?_⟩, ?_, isOfSeries_used t p .revert _⟩
      · rw [revertEach, bind_error hrun]
      · rintro e he q hq
        rw [List.mem_singleton.1 he] at hq
        cases hq
      · rintro _ ⟨⟩
        exact .inr (.refused (List.mem_singleton_self _))
    · rw [hrun] at hrec
      obtain ⟨logged, hlogged⟩ := hrec
      obtain ⟨t₂, hs₂, he₂, hn₂, hcons⟩ := revertEach_cons ps hrun
      rw [hs₁] at hs₂
      have hstep : Drawn (fun _ => False) t t₂ [used t p .revert (.ok o)] (.ok ()) := by
        refine ⟨⟨he₂.trans he₁, by rw [hs₂], by rw [hs₂], by simp [used, Event.isBuild, Start.isBuild]⟩,
          applications_used (by simp) _, ⟨noteOf p why :: logged, ?_, fun e he q hq => ?_⟩, by simp,
          isOfSeries_used t p .revert _⟩
        · rw [hn₂, ← hlogged]
          rfl
        · rw [List.mem_singleton.1 he, patchEnd?_used_ok] at hq
          cases why with
          | none => simp [hwhy.1 rfl] at hq
          | some why =>
            obtain ⟨rfl, -⟩ : p = q ∧ o.status ≠ 0 := by simpa using hq
            exact ⟨why, List.mem_cons_self⟩
      obtain ⟨r, t₃, new, hrest, hdrawn⟩ := revertEach_draws h ps t₂
      rw [hrest] at hcons
      refine ⟨_, t₃, _, hcons, hstep.trans hdrawn fun e he => .inr (.inl ?_)⟩
      rcases r with e' | rest
      · exact he
      · cases he

/-- Where a path is looked at and the answer is then told, only an overlong path is a fault. -/
theorem look_error {p : String} {e : Fault} {f : Option Node → Act Bool}
    (hf : ∀ n, ∃ b, f n h t = (.ok b, t))
    (hr : (Act.query (·.look? · p) >>= f) h t = (.error e, t')) :
    t' = t ∧ e = .disk (.failed .nameTooLong p) ∧ Disk.Overlong p := by
  have hquery := query_apply h t (·.look? · p)
  rcases hl : t.disk.look? h.cwd p with e' | n
  · obtain ⟨rfl, hlong⟩ := Disk.look?_error hl
    rw [hl] at hquery
    rw [bind_error hquery] at hr
    cases hr
    exact ⟨rfl, rfl, hlong⟩
  · obtain ⟨b, hb⟩ := hf n
    rw [hl] at hquery
    rw [bind_ok hquery, hb] at hr
    cases hr

theorem start_cases {s : Start} {r : Except Fault Outcome} (hr : Tool.start s h t = (r, t')) :
    (∃ why, t'.events = .ran s (.error why) :: t.events ∧ r = .error (why.fault s.argv)) ∨
      ∃ o, t'.events = .ran s (.ok o) :: t.events ∧ r = .ok o := by
  rw [Tool.start, bind_ok (a := Tool.launch s) rfl] at hr
  cases he : (h.react t.events s t.disk).ending with
  | ok o =>
    rw [he] at hr
    cases hr
    exact .inr ⟨o, rfl, rfl⟩
  | error why =>
    rw [he] at hr
    cases hr
    exact .inl ⟨why, rfl, rfl⟩

theorem refreshIndex_error {e : Fault} (hr : refreshIndex h t = (.error e, t')) :
    ∃ new, t'.events = new ++ t.events ∧ Lapse t.series new e := by
  rw [refreshIndex, bind_ok (v := t.series) (u := t) rfl] at hr
  rcases bind_cases hr with ⟨e', hp, heq⟩ | ⟨b, t₁, hp, hr⟩
  · cases heq
    obtain ⟨rfl, rfl, hlong⟩ := look_error (fun n => ⟨n.isSome, rfl⟩) hp
    exact ⟨[], rfl, .long (.inr rfl) hlong⟩
  · obtain rfl : t₁ = t := (Keeps.present (I := (· = t)) _).eq rfl hp
    cases b with
    | false => cases hr
    | true =>
      rcases bind_cases hr with ⟨e', hstart, heq⟩ | ⟨o, t₂, hstart, hr⟩
      · cases heq
        obtain ⟨why, he, hw⟩ | ⟨o, -, ho⟩ := start_cases hstart
        · cases hw
          exact ⟨_, he, .refused (List.mem_singleton_self _)⟩
        · cases ho
      · obtain ⟨why, -, hw⟩ | ⟨o, he, ho⟩ := start_cases hstart
        · cases hw
        · cases ho
          split at hr
          · next h0 =>
            rcases hout : o.output with _ | out
            · simp only [hout] at hr
              cases hr
              exact ⟨_, he, .silent (List.mem_singleton_self _) h0 hout⟩
            · simp only [hout] at hr
              cases hr
          · cases hr

/-- Telling git about the files puts nothing in; it is refused, or git fails without a word. -/
theorem refreshIndex_draws (h : Host) (t : Site) : ∃ r t' new,
    refreshIndex h t = (r, t') ∧ Drawn (fun _ => False) t t' new r ∧ t'.series = t.series := by
  rcases hr : refreshIndex h t with ⟨r, t'⟩
  have haside : Aside t t' := aside_refreshIndex.eq (.refl t) hr
  obtain ⟨new, hadv, -, hunused⟩ := haside.advance
  obtain ⟨logged, hlogged⟩ :=
    (lasting_records h t.records).refreshIndex.eq (List.suffix_refl _) hr
  obtain ⟨-, new', hnew, htools⟩ : Since (·.isOfSeries = true) t t' :=
    (since_refreshIndex (fun e he => by cases e <;> first | rfl | cases he) fun _ _ => rfl).eq (.refl _ t) hr
  obtain rfl : new = new' := List.append_cancel_right (hadv.events.symm.trans hnew)
  refine ⟨r, t', new, rfl, ⟨hadv, applications_of_unused hunused, ⟨logged, hlogged.symm, ?_⟩, ?_, htools⟩,
    haside.1⟩
  · intro e he p hp
    rw [Event.patchEnd?_eq_none (hunused e he)] at hp
    cases hp
  · rintro e rfl
    obtain ⟨new', he, hlapse⟩ := refreshIndex_error hr
    rw [List.append_cancel_right (hadv.events.symm.trans he)]
    exact .inr hlapse

/-- That a patch couldn't be taken out. -/
def Unreverted (e : Fault) : Prop := ∃ p, e = .failure (.patch p "failed to revert patch")

theorem settle_draws (h : Host) (t : Site) : ∃ r t' new,
    settle h t = (r, t') ∧ Drawn (fun _ => False) t t' new r := by
  obtain ⟨r, t', new, hrefresh, hdrawn, -⟩ :=
    refreshIndex_draws h (rephased t (if 0 < t.series.count then .applied else .reverted))
  exact ⟨r, t', new, (settle_run h t).trans hrefresh, hdrawn.rebase rfl rfl rfl rfl⟩

/-- Taking out all patches ends well, with a patch that couldn't be taken out, or with a lapse. -/
theorem revertAll_draws (h : Host) (t : Site) : ∃ r t' new,
    revertAll h t = (r, t') ∧ Drawn Unreverted t t' new r := by
  by_cases hp : t.series.phase = .applied
  · obtain ⟨r, t₁, new, hrev, hdrawn⟩ :=
      revertEach_draws h t.series.appliedPatches.reverse (rephased t .reverting)
    obtain ⟨r', t₂, new', hset, hdrawn'⟩ := settle_draws h t₁
    have hfrom : Drawn (fun _ => False) t t₁ new r := hdrawn.rebase rfl rfl rfl rfl
    have hout : Drawn Unreverted t t₁ new r := hfrom.weaken (by simp)
    have hsettle : Drawn Unreverted t₁ t₂ new' r' := hdrawn'.weaken (by simp)
    rw [revertAll_run hp hrev]
    rcases r' with e | _
    · exact ⟨_, t₂, _, bind_error hset, hout.trans hsettle fun e' he => .inr (.inl he)⟩
    · rw [bind_ok hset]
      rcases r with e | _ | ⟨p, ps⟩
      · refine ⟨.error e, t₂, _, rfl, hout.trans hsettle fun e' he => .inl ?_⟩
        cases he
        rfl
      · exact ⟨.ok (), t₂, _, rfl, hout.trans hsettle (by simp)⟩
      · refine ⟨_, t₂, _, rfl, hout.trans hsettle fun e he => .inr (.inr ⟨p, ?_⟩)⟩
        cases he
        rfl
  · exact ⟨.ok (), t, [], revertAll_unapplied h hp, .refl _ t (by simp)⟩

end Hotpatch.Series
