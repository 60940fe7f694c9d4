import Hotpatch.Proofs.Act
import Hotpatch.Proofs.Patch.Trace

/-! A patch series follows its stack. At every site the patches counted as applied are those on the
stack; between two operations the phase tells whether there are any. Each operation of the series is
followed here once, with all the ways in which it can end. -/

namespace Hotpatch

namespace Series

variable {h : Host} {t t' t'' : Site} {new new' : List Event}

/-- The patches that are in are the first ones of the series. -/
theorem appliedPatches_prefix (s : Series) : s.appliedPatches <+: s.patches :=
  List.take_prefix _ _

structure InStep (t : Site) : Prop where
  orderly : Orderly t.series.patches t.events
  stack_eq : stack t.events = t.series.appliedPatches.reverse
  count_le : t.series.count ≤ t.series.patches.length

/-- The state between two operations: nothing is being taken out, and the phase tells whether
anything is in. A series without patches may count as applied as well. -/
structure AtRest (t : Site) : Prop extends InStep t where
  settled : t.series.phase ≠ .reverting
  applied : 0 < t.series.count → t.series.phase = .applied
  loaded : t.series.phase = .applied → t.series.patches ≠ [] → 0 < t.series.count

/-- What every operation leaves: the same series, and no build was started. -/
structure Advance (t t' : Site) (new : List Event) : Prop where
  events : t'.events = new ++ t.events
  source : t'.series.source = t.series.source
  patches : t'.series.patches = t.series.patches
  unbuilt : ∀ e ∈ new, e.isBuild = false

theorem Advance.refl (t : Site) : Advance t t [] := ⟨rfl, rfl, rfl, by simp⟩

theorem Advance.trans (h₁ : Advance t t' new) (h₂ : Advance t' t'' new') :
    Advance t t'' (new' ++ new) := by
  refine ⟨?_, h₂.source.trans h₁.source, h₂.patches.trans h₁.patches, fun e he => ?_⟩
  · rw [h₂.events, h₁.events, List.append_assoc]
  · rcases List.mem_append.1 he with he | he
    · exact h₂.unbuilt e he
    · exact h₁.unbuilt e he

theorem Advance.of_same (hs : t'.series = t.series) (he : t'.events = t.events) :
    Advance t t' [] :=
  ⟨he, by rw [hs], by rw [hs], by simp⟩

theorem InStep.length_stack (ht : InStep t) : (stack t.events).length = t.series.count := by
  rw [ht.stack_eq, appliedPatches, List.length_reverse, List.length_take]
  have := ht.count_le
  omega

theorem InStep.of_same (ht : InStep t) (hs : t'.series = t.series) (he : t'.events = t.events) :
    InStep t' := by
  refine ⟨?_, ?_, ?_⟩
  · rw [hs, he]; exact ht.orderly
  · rw [hs, he]; exact ht.stack_eq
  · rw [hs]; exact ht.count_le

theorem AtRest.of_same (ht : AtRest t) (hs : t'.series = t.series) (he : t'.events = t.events) :
    AtRest t' :=
  ⟨ht.toInStep.of_same hs he, by rw [hs]; exact ht.settled, by rw [hs]; exact ht.applied,
    by rw [hs]; exact ht.loaded⟩

/-- Runs that are none of the patch tool leave everything in step. -/
theorem InStep.of_unused (ht : InStep t) (hs : t'.series = t.series)
    (he : t'.events = new ++ t.events) (hn : ∀ e ∈ new, e.patchStart? = none) : InStep t' := by
  refine ⟨?_, ?_, ?_⟩
  · rw [hs, he]; exact orderly_append hn ht.orderly
  · rw [hs, he, stack_append hn]; exact ht.stack_eq
  · rw [hs]; exact ht.count_le

theorem AtRest.of_unused (ht : AtRest t) (hs : t'.series = t.series)
    (he : t'.events = new ++ t.events) (hn : ∀ e ∈ new, e.patchStart? = none) : AtRest t' :=
  ⟨ht.toInStep.of_unused hs he hn, by rw [hs]; exact ht.settled, by rw [hs]; exact ht.applied,
    by rw [hs]; exact ht.loaded⟩

/-- A series is at rest as long as no patch was used. -/
theorem AtRest.pending (hn : ∀ e ∈ t.events, e.patchStart? = none) (hc : t.series.count = 0)
    (hp : t.series.phase = .pending) : AtRest t := by
  have hk : stack t.events = [] := by
    have : stack (t.events ++ []) = stack [] := stack_append hn
    rwa [List.append_nil] at this
  refine ⟨⟨orderly_of_unused hn, ?_, by omega⟩, by rw [hp]; nofun, by omega, by rw [hp]; nofun⟩
  rw [hk, appliedPatches, hc]
  rfl

theorem AtRest.count_eq_zero (ht : AtRest t) (hp : t.series.phase ≠ .applied) :
    t.series.count = 0 :=
  Nat.eq_zero_of_not_pos fun hc => hp (ht.applied hc)

/-- The event that a use of the patch tool leaves. -/
abbrev used (t : Site) (p : String) (u : Use) (ending : Ending) : Event :=
  .ran ⟨u.argv p, some t.series.source, .captured⟩ ending

theorem patchStart?_used (t : Site) (p : String) (u : Use) (ending : Ending) :
    (used t p u ending).patchStart? = some (u, p) :=
  Start.patchUse?_argv _ _ _

theorem patchEnd?_used_ok (t : Site) (p : String) (u : Use) (o : Outcome) :
    (used t p u (.ok o)).patchEnd? = some (u, p, decide (o.status = 0)) := by
  rw [used, Event.patchEnd?, Start.patchUse?_argv]
  rfl

/-- Using a patch leaves one event; the answer tells whether the status was 0. -/
theorem usePatch_cases (h : Host) (t : Site) (p : String) (u : Use) :
    ∃ t' ending, t'.series = t.series ∧ t'.events = used t p u ending :: t.events ∧
      ((∃ r, ending = .error r ∧ usePatch p u h t = (.error (r.fault (u.argv p)), t')) ∨
        ∃ o why, ending = .ok o ∧ usePatch p u h t = (.ok why, t') ∧
          (why = none ↔ o.status = 0)) := by
  let start : Start := ⟨u.argv p, some t.series.source, .captured⟩
  let r := h.react t.events start t.disk
  let t₁ : Site := { t with disk := r.disk, events := .ran start r.ending :: t.events }
  have hcur : current h t = (.ok t.series, t) := rfl
  have hlaunch : Tool.launch start h t = (.ok r.ending, t₁) := rfl
  rcases hr : r.ending with e | o
  · refine ⟨t₁, .error e, rfl, by simp only [t₁, hr]; rfl, .inl ⟨e, rfl, ?_⟩⟩
    have hstart : Tool.start start h t = (.error (e.fault start.argv), t₁) := by
      rw [Tool.start, Act.bind_ok hlaunch, hr]
      rfl
    rw [usePatch, Act.bind_ok hcur, Act.bind_error hstart]
  · have hstart : Tool.start start h t = (.ok o, t₁) := by
      rw [Tool.start, Act.bind_ok hlaunch, hr]
      rfl
    obtain ⟨t₂, hlog, hs₂, he₂⟩ := Log.forM_emit_apply h (⟨channel, .debug, ·⟩)
      (Text.lines (o.output.getD "" ++ o.errors.getD "")) t₁
    have hlog : (Text.lines (o.output.getD "" ++ o.errors.getD "")).forM (Log.debug channel) h t₁
      = (.ok (), t₂) := hlog
    have answer : ∃ why, usePatch p u h t = (.ok why, t₂) ∧ (why = none ↔ o.status = 0) := by
      rw [usePatch, Act.bind_ok hcur, Act.bind_ok hstart]
      rw [Act.bind_ok hlog]
      by_cases h0 : o.status = 0
      · exact ⟨none, by rw [if_pos h0, Act.pure_apply], by simp [h0]⟩
      · rw [if_neg h0]
        rcases conflicts (o.output.getD "" ++ o.errors.getD "") with _ | ⟨c, cs⟩
        · exact ⟨_, rfl, by simp [h0]⟩
        · exact ⟨_, rfl, by simp [h0]⟩
    obtain ⟨why, hrun, hwhy⟩ := answer
    refine ⟨t₂, .ok o, hs₂, ?_, .inr ⟨o, why, rfl, hrun, hwhy⟩⟩
    rw [he₂]
    simp only [t₁, hr]
    rfl

theorem Advance.of_used {p : String} {u : Use} {ending : Ending} (hs : t'.series = t.series)
    (he : t'.events = used t p u ending :: t.events) : Advance t t' [used t p u ending] :=
  ⟨he, by rw [hs], by rw [hs], by simp [used, Event.isBuild, Start.isBuild]⟩

theorem orderly_used {p : String} {u : Use} (ending : Ending)
    (ho : Orderly t.series.patches t.events) (ha : Allowed t.series.patches t.events u p) :
    Orderly t.series.patches (used t p u ending :: t.events) := by
  refine ⟨ho, fun u' p' he => ?_⟩
  rw [patchStart?_used] at he
  cases he
  exact ha

/-- A use that leaves the stack as it is. -/
theorem InStep.unmoved {p : String} {u : Use} {ending : Ending} (ht : InStep t)
    (ha : Allowed t.series.patches t.events u p)
    (hk : stack (used t p u ending :: t.events) = stack t.events) (hs : t'.series = t.series)
    (he : t'.events = used t p u ending :: t.events) : InStep t' := by
  refine ⟨?_, ?_, ?_⟩
  · rw [hs, he]; exact orderly_used _ ht.orderly ha
  · rw [hs, he, hk]; exact ht.stack_eq
  · rw [hs]; exact ht.count_le

theorem take_pred_reverse {l : List String} {n : Nat} (hn : n ≤ l.length) :
    (l.take (n - 1)).reverse = (l.take n).reverse.tail := by
  rw [List.tail_reverse, List.dropLast_eq_take, List.take_take, List.length_take]
  congr 2
  omega

/-- A revert that ends takes the top off the stack, and one is counted down. -/
theorem InStep.reverted {p : String} {o : Outcome} (ht : InStep t)
    (htop : (stack t.events).head? = some p)
    (hs : t'.series = { t.series with count := t.series.count - 1 })
    (he : t'.events = used t p .revert (.ok o) :: t.events) : InStep t' := by
  refine ⟨?_, ?_, ?_⟩
  · rw [hs, he]; exact orderly_used _ ht.orderly htop
  · rw [hs, he, stack, patchEnd?_used_ok, ht.stack_eq]
    exact (take_pred_reverse ht.count_le).symm
  · have := ht.count_le
    rw [hs]
    show t.series.count - 1 ≤ t.series.patches.length
    omega

/-- What taking patches out leaves. With an answer nothing is left in; with a fault it was a start
that was refused. -/
structure Unwound (t t' : Site) (new : List Event) (r : Except Fault (List String)) : Prop where
  inStep : InStep t'
  advance : Advance t t' new
  phase : t'.series.phase = t.series.phase
  ok : ∀ failed, r = .ok failed → t'.series.count = 0 ∧ (failed = [] → Clean new)
  error : ∀ e, r = .error e → ∃ e ∈ new, e.isRefused = true

theorem clean_used_revert (t : Site) (p : String) {o : Outcome} (h0 : o.status = 0) :
    Clean [used t p .revert (.ok o)] := by
  intro e he q hq
  rw [List.mem_singleton.1 he, patchEnd?_used_ok, h0] at hq
  cases hq

def countedDown (t : Site) : Site :=
  { t with series := { t.series with count := t.series.count - 1 } }

/-- What is noted of a revert that ended. -/
def noteOf (p : String) : Option String → Log.Record
  | none => ⟨channel, .debug, "Reverted patch " ++ p⟩
  | some why => ⟨channel, .error, "Failed to revert " ++ p ++ ": " ++ why⟩

/-- After a revert that ended comes one line of log, then the count, then the rest. -/
theorem revertEach_cons {p : String} {why : Option String} (ps : List String)
    (hrun : usePatch p .revert h t = (.ok why, t')) :
    ∃ t₂, t₂.series = { t'.series with count := t'.series.count - 1 } ∧ t₂.events = t'.events ∧
      t₂.records = noteOf p why :: t'.records ∧ revertEach (p :: ps) h t =
        ((revertEach ps h t₂).1.map fun rest => if why.isSome then p :: rest else rest,
          (revertEach ps h t₂).2) := by
  have rest : ∀ t₁ : Site,
      (do
        let s ← current
        put { s with count := s.count - 1 }
        let rest ← revertEach ps
        return if why.isSome then p :: rest else rest : Act (List String)) h t₁ =
      ((revertEach ps h (countedDown t₁)).1.map fun rest =>
        if why.isSome then p :: rest else rest, (revertEach ps h (countedDown t₁)).2) := by
    intro t₁
    rw [Act.bind_ok (v := t₁.series) (u := t₁) rfl, Act.bind_ok (u := countedDown t₁) rfl]
    rcases hr : revertEach ps h (countedDown t₁) with ⟨e | l, t₃⟩
    · rw [Act.bind_error hr]; rfl
    · rw [Act.bind_ok hr]; rfl
  obtain ⟨t₁, hlog, hs, he⟩ := Log.emit_apply h t' (noteOf p why)
  have hnote : t₁.records = noteOf p why :: t'.records := by
    have := Log.emit_records h t' (noteOf p why)
    rwa [hlog] at this
  refine ⟨countedDown t₁, by rw [countedDown, hs], he, hnote, ?_⟩
  rw [revertEach, Act.bind_ok hrun]
  cases why with
  | none => exact (Act.bind_ok hlog).trans (rest t₁)
  | some why => exact (Act.bind_ok hlog).trans (rest t₁)

/-- The list runs down the stack: its head is the next patch to come out. -/
theorem revertEach_unwinds (h : Host) : ∀ (ps : List String) (t : Site), InStep t →
    stack t.events = ps → ∃ r t' new, revertEach ps h t = (r, t') ∧ Unwound t t' new r
  | [], t, ht, hps => by
    refine ⟨.ok [], t, [], rfl, ht, .refl t, rfl, ?_, by simp⟩
    rintro failed ⟨⟩
    refine ⟨?_, fun _ => by simp [Clean]⟩
    rw [← ht.length_stack, hps]
    rfl
  | p :: ps, t, ht, hps => by
    have htop : Allowed t.series.patches t.events .revert p := by
      rw [Allowed, hps]
      rfl
    obtain ⟨t₁, ending, hs₁, he₁, ⟨r, rfl, hrun⟩ | ⟨o, why, rfl, hrun, hwhy⟩⟩ :=
      usePatch_cases h t p .revert
    · refine ⟨.error (r.fault (Use.revert.argv p)), t₁, _, ?_, ht.unmoved htop rfl hs₁ he₁,
        .of_used hs₁ he₁, by rw [hs₁], by simp, fun _ _ => ⟨_, List.mem_singleton_self _, rfl⟩⟩
      rw [revertEach, Act.bind_error hrun]
    · obtain ⟨t₂, hs₂, he₂, -, hcons⟩ := revertEach_cons ps hrun
      rw [hs₁] at hs₂
      rw [he₁] at he₂
      have ht₂ : InStep t₂ := ht.reverted htop hs₂ he₂
      have hps₂ : stack t₂.events = ps := by rw [he₂, stack, patchEnd?_used_ok, hps]; rfl
      obtain ⟨r, t₃, new, hrest, hu⟩ := revertEach_unwinds h ps t₂ ht₂ hps₂
      rw [hrest] at hcons
      have hadv : Advance t t₂ [used t p .revert (.ok o)] :=
        ⟨he₂, by rw [hs₂], by rw [hs₂], by simp [used, Event.isBuild, Start.isBuild]⟩
      refine ⟨_, t₃, _, hcons, hu.inStep, hadv.trans hu.advance, by rw [hu.phase, hs₂], ?_, ?_⟩
      · intro failed hf
        rcases r with e | rest
        · cases hf
        obtain ⟨hc, hclean⟩ := hu.ok rest rfl
        refine ⟨hc, fun h0 => clean_append.2 ?_⟩
        cases why with
        | some why => cases hf; cases h0
        | none =>
          cases hf
          exact ⟨hclean h0, clean_used_revert t p (hwhy.1 rfl)⟩
      · intro e hf
        rcases r with e' | rest
        · obtain ⟨e, he, href⟩ := hu.error e' rfl
          exact ⟨e, List.mem_append_left _ he, href⟩
        · cases hf

end Series

end Hotpatch
