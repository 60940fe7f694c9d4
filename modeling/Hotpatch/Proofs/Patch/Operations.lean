import Hotpatch.Proofs.Patch.Withdrawal

/-! The operations of a patch series, each with all its endings: taking everything out, putting
everything in, and a block in between. Whatever happens, the series is at rest afterwards; where an
operation gives an answer, everything is out or everything is in. -/

namespace Hotpatch.Series

open Act

variable {h : Host} {t t' t'' : Site} {new new' : List Event}

theorem InStep.of_count (ht : InStep t) (hp : t'.series.patches = t.series.patches)
    (hc : t'.series.count = t.series.count) (he : t'.events = t.events) : InStep t' := by
  refine ⟨?_, ?_, ?_⟩
  · rw [hp, he]; exact ht.orderly
  · rw [he, appliedPatches, hp, hc]; exact ht.stack_eq
  · rw [hp, hc]; exact ht.count_le

/-- What taking everything out leaves. Only a start that was refused can leave something in, and where
a patch is told to be in the way nothing is left. -/
structure Emptied (t t' : Site) (new : List Event) (r : Except Fault Unit) : Prop
    extends Drawn Unreverted t t' new r where
  atRest : AtRest t'
  ok : r = .ok () → t'.series.count = 0 ∧ t'.series.phase ≠ .applied ∧ Clean new
  failed : ∀ w, r = .error (.failure w) → t'.series.count = 0 ∧ t'.series.phase ≠ .applied
  calm : (∀ e ∈ new, e.isRefused = false) → t'.series.count = 0
  out : t'.series.count = 0 → t'.series.phase ≠ .applied

/-- The phase after reverting tells whether something was left in. -/
theorem settle_rests (h : Host) (ht : InStep t) :
    ∃ r t' new, settle h t = (r, t') ∧ AtRest t' ∧ Advance t t' new ∧ Clean new ∧
      t'.series.count = t.series.count ∧ (t.series.count = 0 → t'.series.phase ≠ .applied) := by
  let p : Phase := if 0 < t.series.count then .applied else .reverted
  have ht₁ : AtRest (rephased t p) := by
    refine ⟨ht.of_count rfl rfl rfl, ?_, fun hc => if_pos hc, fun (hc : p = .applied) _ => ?_⟩
    · show p ≠ .reverting
      simp only [p]
      split <;> simp
    · simp only [p] at hc
      split at hc
      · assumption
      · cases hc
  rcases hr : refreshIndex h (rephased t p) with ⟨r, t'⟩
  have ha : Aside (rephased t p) t' := aside_refreshIndex.eq (.refl _) hr
  obtain ⟨new, hadv, hclean, -⟩ := ha.advance
  refine ⟨r, t', new, (settle_run h t).trans hr, ht₁.aside ha,
    ⟨hadv.events, hadv.source, hadv.patches, hadv.unbuilt⟩, hclean, ?_, fun h0 => ?_⟩
  · rw [ha.1]
    rfl
  · rw [ha.1]
    show p ≠ .applied
    simp [p, h0]

theorem settle_no_failure {r : Except Fault Unit} {w : Failure} (hr : settle h t = (r, t')) :
    r ≠ .error (.failure w) := by
  rintro rfl
  obtain ⟨r, u, new, hrun, hdrawn⟩ := settle_draws h t
  cases hr.symm.trans hrun
  exact (hdrawn.fault _ rfl).elim id Lapse.not_failure

theorem revertEach_no_failure {ps : List String} {r : Except Fault (List String)} {w : Failure}
    (hr : revertEach ps h t = (r, t')) : r ≠ .error (.failure w) := by
  rintro rfl
  obtain ⟨r, u, new, hrun, hdrawn⟩ := revertEach_draws h ps t
  cases hr.symm.trans hrun
  exact (hdrawn.fault _ rfl).elim id Lapse.not_failure

theorem revertAll_drawn {r : Except Fault Unit} (hr : revertAll h t = (r, t'))
    (he : t'.events = new ++ t.events) : Drawn Unreverted t t' new r := by
  obtain ⟨r, u, new', hrun, hdrawn⟩ := revertAll_draws h t
  cases hr.symm.trans hrun
  rwa [List.append_cancel_right (he.symm.trans hdrawn.advance.events)]

theorem revertAll_empties (h : Host) (ht : AtRest t) :
    ∃ r t' new, revertAll h t = (r, t') ∧ Emptied t t' new r := by
  by_cases hp : t.series.phase = .applied
  · have ht₁ : InStep (rephased t .reverting) := ht.toInStep.of_count rfl rfl rfl
    obtain ⟨r, t₂, new, hrev, hu⟩ := revertEach_unwinds h _ _ ht₁ ht₁.stack_eq
    obtain ⟨r', t₃, new', hset, hrest, hadv, hclean, hcount, hphase⟩ := settle_rests h hu.inStep
    have hevents : t₃.events = (new' ++ new) ++ t.events := (hu.advance.trans hadv).events
    have hcalm : (∀ e ∈ new' ++ new, e.isRefused = false) → t₃.series.count = 0 := by
      intro hn
      rw [hcount]
      rcases r with e | failed
      · obtain ⟨e, he, href⟩ := hu.error e rfl
        rw [hn e (List.mem_append_right _ he)] at href
        cases href
      · exact (hu.ok failed rfl).1
    have hout : t₃.series.count = 0 → t₃.series.phase ≠ .applied :=
      fun h0 => hphase (hcount.symm.trans h0)
    have hrun := revertAll_run hp hrev
    rcases r' with e | _
    · have hrun := hrun.trans (bind_error hset)
      refine ⟨.error e, t₃, _, hrun, revertAll_drawn hrun hevents, hrest, by simp, fun w hw => ?_, hcalm, hout⟩
      exact absurd (by cases hw; rfl) (settle_no_failure hset)
    · rw [bind_ok hset] at hrun
      rcases r with e | _ | ⟨p, ps⟩
      · refine ⟨.error e, t₃, _, hrun, revertAll_drawn hrun hevents, hrest, by simp, fun w hw => ?_, hcalm, hout⟩
        exact absurd (by cases hw; rfl) (revertEach_no_failure hrev)
      · obtain ⟨hc, hcl⟩ := hu.ok _ rfl
        have hboth : Clean (new' ++ new) := clean_append.2 ⟨hclean, hcl rfl⟩
        exact ⟨.ok (), t₃, _, hrun, revertAll_drawn hrun hevents, hrest,
          fun _ => ⟨hcount.trans hc, hphase hc, hboth⟩, by simp, hcalm, hout⟩
      · obtain ⟨hc, -⟩ := hu.ok _ rfl
        exact ⟨_, t₃, _, hrun, revertAll_drawn hrun hevents, hrest, by simp,
          fun _ _ => ⟨hcount.trans hc, hphase hc⟩, hcalm, hout⟩
  · have hrun := revertAll_unapplied h hp
    exact ⟨.ok (), t, [], hrun, revertAll_drawn hrun rfl, ht,
      fun _ => ⟨ht.count_eq_zero hp, hp, by simp [Clean]⟩, by simp, fun _ => ht.count_eq_zero hp, fun _ => hp⟩

/-- What giving up for a patch makes of how taking the others out ended. -/
def surrender (p why : String) : Except Fault Unit → Fault
  | .ok () => .failure (.patch p why)
  | .error e => e

/-- Giving up never gives an answer. -/
theorem giveUp_apply {r : Except Fault Unit} (p why : String) (hr : revertAll h t = (r, t')) :
    giveUp p why h t = (.error (surrender p why r), t') := by
  rcases r with e | _
  · exact bind_error hr
  · exact (bind_ok hr).trans (fail_apply _ _ _)

/-- The way in: from `t` to `t'` no revert ended. -/
structure Ascent (t t' : Site) (new : List Event) : Prop where
  atRest : AtRest t'
  advance : Advance t t' new
  kept : reverts new = []
  tools : ∀ e ∈ new, e.isOfSeries = true

theorem Ascent.refl (ht : AtRest t) : Ascent t t [] := ⟨ht, .refl t, rfl, by simp⟩

theorem Ascent.trans (h₁ : Ascent t t' new) (h₂ : Ascent t' t'' new') : Ascent t t'' (new' ++ new) :=
  ⟨h₂.atRest, h₁.advance.trans h₂.advance, by rw [reverts_append, h₁.kept, h₂.kept]; rfl,
    fun e he => (List.mem_append.1 he).elim (h₂.tools e) (h₁.tools e)⟩

theorem reverts_used {p : String} {u : Use} (hu : u ≠ .revert) (ending : Ending) :
    reverts [used t p u ending] = [] := by
  rw [reverts_cons]
  rcases ending with r | o
  · rfl
  · have hend := patchEnd?_used_ok t p u o
    cases u with
    | revert => exact absurd rfl hu
    | trial => simp [Event.reverted?, hend, reverts]
    | apply => simp [Event.reverted?, hend, reverts]

theorem AtRest.unmoved {p : String} {u : Use} {ending : Ending} (ht : AtRest t)
    (ha : Allowed t.series.patches t.events u p)
    (hk : stack (used t p u ending :: t.events) = stack t.events) (hs : t'.series = t.series)
    (he : t'.events = used t p u ending :: t.events) : AtRest t' :=
  ⟨ht.toInStep.unmoved ha hk hs he, by rw [hs]; exact ht.settled, by rw [hs]; exact ht.applied,
    by rw [hs]; exact ht.loaded⟩

theorem Ascent.unmoved {p : String} {u : Use} {ending : Ending} (ht : AtRest t) (hu : u ≠ .revert)
    (ha : Allowed t.series.patches t.events u p)
    (hk : stack (used t p u ending :: t.events) = stack t.events) (hs : t'.series = t.series)
    (he : t'.events = used t p u ending :: t.events) : Ascent t t' [used t p u ending] :=
  ⟨ht.unmoved ha hk hs he, .of_used hs he, reverts_used hu ending, isOfSeries_used t p u ending⟩

/-- What a lapse on the way in comes from: the patch tool was not started, or the next patch has a path
that is too long to be looked up. -/
def Hindered (s : Series) (new : List Event) : Prop :=
  (∃ e ∈ new, e.isRefused = true) ∨ ∃ p, s.patches[s.count]? = some p ∧ Disk.Overlong p

/-- How putting patches in ends: they are in and `Q` holds, a lapse breaks it off, or it is given up for
a patch. Up to there nothing has come out. -/
inductive Course (h : Host) (Q : Site → Prop) (a : Act Unit) (t : Site) : Prop
  | done {t' : Site} {new : List Event} : Ascent t t' new → a h t = (.ok (), t') → Q t' →
      Course h Q a t
  | broken {t' : Site} {new : List Event} {e : Fault} : Ascent t t' new → a h t = (.error e, t') →
      Lapse t.series new e → Hindered t'.series new → Course h Q a t
  | givenUp {t' : Site} {new : List Event} {p why : String} : Ascent t t' new →
      a h t = giveUp p why h t' → Course h Q a t

section Course

variable {P Q : Site → Prop} {a b : Act Unit} {f : Unit → Act Unit}

theorem Course.after (ha : Ascent t t' new) (hrun : a h t = b h t') (hb : Course h Q b t') :
    Course h Q a t := by
  cases hb with
  | done hb hend hq => exact .done (ha.trans hb) (hrun.trans hend) hq
  | broken hb hend hl hh =>
    refine .broken (ha.trans hb) (hrun.trans hend) ?_ ?_
    · exact hl.mono ha.advance.source.symm ha.advance.patches.symm (List.subset_append_left _ _)
    · exact hh.imp_left fun ⟨e, he, hr⟩ => ⟨e, List.mem_append_left _ he, hr⟩
  | givenUp hb hend => exact .givenUp (ha.trans hb) (hrun.trans hend)

/-- Nothing comes behind giving up. -/
theorem giveUp_bind (h : Host) (t : Site) (p why : String) (f : Unit → Act Unit) :
    (giveUp p why >>= f) h t = giveUp p why h t := by
  rcases hr : revertAll h t with ⟨r, u⟩
  rw [bind_error (giveUp_apply p why hr), giveUp_apply p why hr]

theorem Course.bind (ha : Course h P a t)
    (hf : ∀ t' new, Ascent t t' new → P t' → Course h Q (f ()) t') : Course h Q (a >>= f) t := by
  cases ha with
  | done ha hend hp => exact .after ha (bind_ok hend) (hf _ _ ha hp)
  | broken ha hend hl hh => exact .broken ha (bind_error hend) hl hh
  | @givenUp u new p why ha hend =>
    have hbind : (a >>= f) h t = (giveUp p why >>= f) h u := by
      rcases hg : giveUp p why h u with ⟨e | v, w⟩
      · rw [bind_error (hend.trans hg), bind_error hg]
      · rw [bind_ok (hend.trans hg), bind_ok hg]
    exact .givenUp ha (hbind.trans (giveUp_bind h u p why f))

end Course

theorem isFile_error {p : String} {e : Fault} (hr : isFile p h t = (.error e, t')) :
    t' = t ∧ e = .disk (.failed .nameTooLong p) ∧ Disk.Overlong p := by
  refine look_error (fun n => ?_) hr
  split
  · exact ⟨true, rfl⟩
  · exact ⟨false, rfl⟩

/-- The next patch of the series after a trial with status 0. -/
theorem applyTried_course (h : Host) {p : String} (ht : AtRest t)
    (hp : Allowed t.series.patches t.events .apply p) :
    Course h (fun t' => t'.series.count = t.series.count + 1) (applyTried p) t := by
  obtain ⟨t₁, ending, hs₁, he₁, ⟨r, rfl, hrun⟩ | ⟨o, why, rfl, hrun, hwhy⟩⟩ :=
    usePatch_cases h t p .apply
  · exact .broken (.unmoved ht (by simp) hp rfl hs₁ he₁) (bind_error hrun)
      (.refused (List.mem_singleton_self _)) (.inl ⟨_, List.mem_singleton_self _, rfl⟩)
  · rcases why with _ | why
    · have h0 : o.status = 0 := hwhy.1 rfl
      let t₂ : Site := { t₁ with series :=
        { t₁.series with count := t₁.series.count + 1, phase := .applied } }
      obtain ⟨t₃, hlog, hs₃, he₃⟩ := Log.emit_apply h t₂ ⟨channel, .debug, "Applied patch " ++ p ++
        " (" ++ toString (t₁.series.count + 1) ++ "/" ++ toString t₁.series.patches.length ++ ")"⟩
      have hget : t.series.patches[t.series.count]? = some p := ht.length_stack ▸ hp.1
      have hlt : t.series.count < t.series.patches.length := (List.getElem?_eq_some_iff.1 hget).1
      have ht₂ : AtRest t₂ := by
        refine ⟨⟨?_, ?_, ?_⟩, by simp [t₂], fun _ => rfl, fun _ _ => Nat.succ_pos _⟩
        · show Orderly t₁.series.patches t₁.events
          rw [hs₁, he₁]
          exact orderly_used _ ht.orderly hp
        · show stack t₁.events = (t₁.series.patches.take (t₁.series.count + 1)).reverse
          rw [hs₁, he₁, stack, patchEnd?_used_ok, decide_eq_true h0, ht.stack_eq, appliedPatches,
            List.take_add_one, hget]
          simp
        · show t₁.series.count + 1 ≤ t₁.series.patches.length
          rw [hs₁]
          exact hlt
      have hasc : Ascent t t₃ [used t p .apply (.ok o)] := by
        refine ⟨ht₂.of_same hs₃ he₃, ⟨he₃.trans he₁, ?_, ?_, ?_⟩, reverts_used (by simp) _,
          isOfSeries_used t p .apply _⟩
        · rw [hs₃, ← hs₁]
        · rw [hs₃, ← hs₁]
        · simp [used, Event.isBuild, Start.isBuild]
      refine .done hasc ((bind_ok hrun).trans hlog) ?_
      rw [hs₃, ← hs₁]
    · have h0 : o.status ≠ 0 := fun h0 => by cases hwhy.2 h0
      have hk : stack (used t p .apply (.ok o) :: t.events) = stack t.events := by
        rw [stack, patchEnd?_used_ok, decide_eq_false h0]
      exact .givenUp (.unmoved ht (by simp) hp hk hs₁ he₁)
        ((bind_ok hrun).trans (giveUp_bind h t₁ p why _))

theorem applyOne_course (h : Host) {p : String} (ht : AtRest t)
    (hp : t.series.patches[t.series.count]? = some p) :
    Course h (fun t' => t'.series.count = t.series.count + 1) (applyOne p) t := by
  have hmem : p ∈ t.series.patches := List.mem_of_getElem? hp
  have hfile : (isFile p h t).2 = t := Keeps.isFile (I := fun t' => t' = t) p t rfl
  rcases hb : isFile p h t with ⟨e | b, t₀⟩
  · obtain ⟨rfl, rfl, hlong⟩ := isFile_error hb
    exact .broken (.refl ht) (bind_error hb) (.long (.inl hmem) hlong) (.inr ⟨p, hp, hlong⟩)
  obtain rfl : t₀ = t := by rw [hb] at hfile; exact hfile
  have trial : Allowed t₀.series.patches t₀.events .trial p := trivial
  cases b with
  | false => exact .givenUp (.refl ht) ((bind_ok hb).trans (giveUp_bind h t₀ p _ _))
  | true =>
    obtain ⟨t₁, ending, hs₁, he₁, ⟨r, rfl, hrun⟩ | ⟨o, why, rfl, hrun, hwhy⟩⟩ :=
      usePatch_cases h t₀ p .trial
    · exact .broken (.unmoved ht (by simp) trial rfl hs₁ he₁) ((bind_ok hb).trans (bind_error hrun))
        (.refused (List.mem_singleton_self _)) (.inl ⟨_, List.mem_singleton_self _, rfl⟩)
    · have hk : stack (used t₀ p .trial (.ok o) :: t₀.events) = stack t₀.events := by
        rw [stack, patchEnd?_used_ok]
      have ha : Ascent t₀ t₁ _ := .unmoved ht (by simp) trial hk hs₁ he₁
      rcases why with _ | why
      · have h0 : o.status = 0 := hwhy.1 rfl
        have hp₁ : Allowed t₁.series.patches t₁.events .apply p := by
          refine ⟨?_, ?_⟩
          · rw [he₁, hk, ht.length_stack, hs₁]
            exact hp
          · rw [he₁, List.head?_cons, Option.bind_some, patchEnd?_used_ok, decide_eq_true h0]
        have htried := applyTried_course h ha.atRest hp₁
        rw [hs₁] at htried
        exact .after ha ((bind_ok hb).trans (bind_ok hrun)) htried
      · exact .givenUp ha ((bind_ok hb).trans ((bind_ok hrun).trans (giveUp_bind h t₁ p why _)))

/-- Putting in what is left of the series. -/
theorem applyEach_course (h : Host) : ∀ (ps : List String) (t : Site), AtRest t →
    t.series.patches.drop t.series.count = ps →
      Course h (fun t' => t'.series.count = t.series.patches.length) (applyEach ps) t
  | [], t, ht, hps => by
    have := List.drop_eq_nil_iff.1 hps
    have := ht.count_le
    exact .done (.refl ht) rfl (by omega)
  | p :: ps, t, ht, hps => by
    have hp : t.series.patches[t.series.count]? = some p := by
      rw [← List.head?_drop, hps]
      rfl
    refine (applyOne_course h ht hp).bind fun t₁ new ha hc => ?_
    have hps₁ : t₁.series.patches.drop t₁.series.count = ps := by
      rw [ha.advance.patches, hc, ← List.tail_drop, hps]
      rfl
    have hrest := applyEach_course h ps t₁ ha.atRest hps₁
    rwa [ha.advance.patches] at hrest

/-- Putting in the whole series. -/
theorem apply_course (h : Host) (ht : AtRest t) (hp : t.series.phase ≠ .applied) :
    Course h (fun t' => t'.series.count = t.series.patches.length ∧ t'.series.phase = .applied)
      apply t := by
  have hps : t.series.patches.drop t.series.count = t.series.patches := by
    rw [ht.count_eq_zero hp, List.drop_zero]
  have hstart : apply h t = (do
      applyEach t.series.patches
      put { (← current) with phase := .applied } : Act Unit) h t := by
    rw [apply, bind_ok (v := t.series) (u := t) rfl, if_neg (by simp [hp, ht.settled])]
  refine .after (.refl ht) hstart ((applyEach_course h _ t ht hps).bind fun t₁ new ha hc => ?_)
  have hrest : AtRest (rephased t₁ .applied) := by
    refine ⟨ha.atRest.toInStep.of_count rfl rfl rfl, by simp [rephased], fun _ => rfl,
      fun _ (hne : t₁.series.patches ≠ []) => ?_⟩
    show 0 < t₁.series.count
    rw [hc, ← ha.advance.patches]
    exact List.length_pos_iff.2 hne
  have hlast : Ascent t₁ (rephased t₁ .applied) [] := ⟨hrest, ⟨rfl, rfl, rfl, by simp⟩, rfl, by simp⟩
  exact .done hlast rfl ⟨hc, rfl⟩

/-- What putting the series in leaves; with an answer `n` patches are in. -/
structure Raised (n : Nat) (t t' : Site) (new : List Event) (r : Except Fault Unit) : Prop where
  atRest : AtRest t'
  advance : Advance t t' new
  ok : r = .ok () → t'.series.count = n ∧ Clean new

theorem clean_of_kept (hn : reverts new = []) : Clean new := by
  intro e he p hp
  rw [reverts, List.reverse_eq_nil_iff, List.filterMap_eq_nil_iff] at hn
  have := hn e he
  rw [Event.reverted?, hp] at this
  cases this

/-- Putting in the whole series, whether or not it is in already. -/
theorem apply_raises (h : Host) (ht : AtRest t) :
    ∃ r t' new, apply h t = (r, t') ∧ Raised t.series.patches.length t t' new r := by
  by_cases hp : t.series.phase = .applied
  · let why := "transaction is already " ++ t.series.phase.name
    refine ⟨.error (.failure (.patch (t.series.patches.headD "<none>") why)), t, [], ?_,
      ht, .refl t, by simp⟩
    rw [apply, bind_ok (v := t.series) (u := t) rfl, if_pos (by simp [hp])]
    exact bind_error (fail_apply _ _ _)
  · cases apply_course h ht hp with
    | done ha hrun hq => exact ⟨_, _, _, hrun, ha.atRest, ha.advance, fun _ => ⟨hq.1, clean_of_kept ha.kept⟩⟩
    | broken ha hrun => exact ⟨_, _, _, hrun, ha.atRest, ha.advance, by simp⟩
    | @givenUp u new p why ha hrun =>
      obtain ⟨r, t', new', hrev, he⟩ := revertAll_empties h ha.atRest
      exact ⟨_, _, _, hrun.trans (giveUp_apply p why hrev), he.atRest, ha.advance.trans he.advance,
        by simp⟩

/-- With the whole series in, the stack is the series. -/
theorem AtRest.stack_full (ht : AtRest t) (hc : t.series.count = t.series.patches.length) :
    stack t.events = t.series.patches.reverse := by
  rw [ht.stack_eq, appliedPatches, hc, List.take_length]

theorem AtRest.stack_nil (ht : AtRest t) (hc : t.series.count = 0) : stack t.events = [] := by
  rw [ht.stack_eq, appliedPatches, hc]
  rfl

/-- Only a failure is noted and forgotten on the way out. -/
theorem revertAfter_error {α : Type} {cause e : Fault} (hr : revertAll h t = (.error e, t'))
    (he : ∀ w, e ≠ .failure w) : (revertAfter cause : Act α) h t = (.error e, t') := by
  rw [revertAfter, bind_ok (attempt_of hr)]
  cases e with
  | failure w => exact absurd rfl (he w)
  | _ => exact bind_error rfl

/-- Reverting after a failed block comes to what taking everything out comes to. The fault of the block
goes on, unless there was a lapse. -/
theorem revertAfter_empties (α : Type) (h : Host) (cause : Fault) (ht : AtRest t) : ∃ r v new e u,
    revertAll h t = (r, v) ∧ Emptied t v new r ∧ (revertAfter cause : Act α) h t = (.error e, u) ∧
      u.series = v.series ∧ u.events = v.events ∧ (e = cause ∨ Lapse t.series new e) := by
  obtain ⟨r, v, new, hrun, hempty⟩ := revertAll_empties h ht
  rcases r with e | _
  · obtain ⟨p, rfl⟩ | hl := hempty.fault e rfl
    · obtain ⟨u, hlog, hs, he⟩ := Log.emit_apply h v ⟨channel, .error, "Revert after failure also failed: " ++
        (Failure.patch p "failed to revert patch").message⟩
      refine ⟨_, v, new, cause, u, hrun, hempty, ?_, hs, he, .inl rfl⟩
      rw [revertAfter, bind_ok (attempt_of hrun)]
      exact bind_ok hlog
    · refine ⟨_, v, new, e, v, hrun, hempty, revertAfter_error hrun ?_, rfl, rfl, .inr hl⟩
      rintro w rfl
      exact Lapse.not_failure hl
  · refine ⟨_, v, new, cause, v, hrun, hempty, ?_, rfl, rfl, .inl rfl⟩
    rw [revertAfter, bind_ok (attempt_of hrun)]
    rfl

/-- Reverting after a failed block gives no answer either. -/
theorem revertAfter_fails (α : Type) (h : Host) (cause : Fault) (ht : AtRest t) :
    ∃ e t' new, (revertAfter cause : Act α) h t = (.error e, t') ∧ AtRest t' ∧ Advance t t' new := by
  obtain ⟨r, v, new, e, u, -, hempty, hrun, hs, he, -⟩ := revertAfter_empties α h cause ht
  exact ⟨e, u, _, hrun, hempty.atRest.of_same hs he, hempty.advance.trans (.of_same hs he)⟩

end Hotpatch.Series
