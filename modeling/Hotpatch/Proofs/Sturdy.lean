import Hotpatch.Proofs.Patch.Aside

/-! Facts that stand every tool and don't speak of the series: the operations of the series keep them.
Where they are robust as well they are `Sturdy`; and to any robust fact one can be added that only work
beside the series keeps. -/

namespace Hotpatch

open Act Series

variable {h : Host} {mine seen : String → Prop} {I J : Site → Prop}

structure Lasting (h : Host) (I : Site → Prop) : Prop extends Heard h I where
  launchAny : ∀ s, Keeps h I (Tool.launch s)
  put : ∀ s, Keeps h I (Series.put s)

structure Sturdy (h : Host) (mine seen : String → Prop) (I : Site → Prop) : Prop
    extends Robust h mine seen I, Lasting h I

theorem sturdy_true (h : Host) (mine : String → Prop) :
    Sturdy h mine (fun _ => True) fun _ => True :=
  ⟨.of_events (J := fun _ _ => True) (fun _ _ _ _ _ => id) fun _ _ _ _ => id, fun _ _ => id,
    fun _ _ => id⟩

/-- The log only grows. -/
theorem lasting_records (h : Host) (base : List Log.Record) :
    Lasting h fun t => base <:+ t.records := by
  refine ⟨⟨fun r t ht => ?_, fun e he t ht => ht⟩, fun s t ht => ht, fun s t ht => ht⟩
  rw [Log.emit_records]
  exact ht.trans (List.suffix_cons _ _)

/-- What work beside the series leaves can be added to a robust fact. -/
theorem Robust.beside (hI : Robust h mine seen I)
    (hJ : ∀ t t', J t → Aside t t' → J t') : Robust h mine seen fun t => J t ∧ I t := by
  have both : ∀ {α : Type} {a : Act α}, (∀ t, Keeps h (Aside t) a) → Keeps h I a →
      Keeps h (fun t => J t ∧ I t) a := fun ha hi t ht =>
    ⟨hJ _ _ ht.1 (ha t t (.refl t)), hi t ht.2⟩
  have hA : ∀ t, Robust h mine (fun _ => True) (Aside t) := aside_robust
  exact ⟨⟨⟨fun r => both (fun t => (hA t).emit r) (hI.emit r),
    fun e he => both (fun t => (hA t).record e he) (hI.record e he)⟩, fun t ht => hI.names t ht.2,
    fun p => both (fun t => (hA t).makeDirs p) (hI.makeDirs p),
    fun p c hp => both (fun t => (hA t).write p c hp) (hI.write p c hp),
    fun a b hb => both (fun t => (hA t).copy a b hb) (hI.copy a b hb),
    fun p hp => both (fun t => (hA t).unlink p hp) (hI.unlink p hp),
    fun p hp => both (fun t => (hA t).removeTree p hp) (hI.removeTree p hp),
    fun tree name b hn hs hb => both (fun t => (hA t).move tree name b hn trivial hb)
      (hI.move tree name b hn hs hb)⟩,
    fun s hs => both (fun t => (hA t).launch s hs) (hI.launch s hs)⟩

namespace Lasting

theorem and (hI : Lasting h I) (hJ : Lasting h J) : Lasting h fun t => I t ∧ J t :=
  ⟨⟨fun r _ ht => ⟨hI.emit r _ ht.1, hJ.emit r _ ht.2⟩,
    fun e he _ ht => ⟨hI.record e he _ ht.1, hJ.record e he _ ht.2⟩⟩,
    fun s _ ht => ⟨hI.launchAny s _ ht.1, hJ.launchAny s _ ht.2⟩,
    fun s _ ht => ⟨hI.put s _ ht.1, hJ.put s _ ht.2⟩⟩

variable (hI : Lasting h I)
include hI

theorem tool (s : Start) : Keeps h I (Tool.start s) := Robust.start (hI.launchAny s)

theorem usePatch (p : String) (u : Use) : Keeps h I (usePatch p u) := by
  refine Keeps.get.bind fun _ => (hI.tool _).bind fun _ => ?_
  refine (Keeps.forM (fun _ => hI.debug _ _) _).bind fun _ => ?_
  split
  · exact .pure _
  · split <;> exact .pure _

theorem refreshIndex : Keeps h I refreshIndex := by
  refine Keeps.get.bind fun _ => (Keeps.present _).bind fun _ => ?_
  split
  · exact .pure _
  · refine (hI.tool _).bind fun _ => ?_
    split
    · split
      · exact .throw _
      · exact hI.debug _ _
    · exact .pure _

theorem revertEach : ∀ ps : List String, Keeps h I (revertEach ps)
  | [] => .pure _
  | p :: ps => by
    have rest : ∀ reason : Option String, Keeps h I (do
        let s ← current
        Series.put { s with count := s.count - 1 }
        let rest ← Series.revertEach ps
        return if reason.isSome then p :: rest else rest : Act (List String)) := fun _ =>
      Keeps.get.bind fun _ => (hI.put _).bind fun _ => (revertEach ps).bind fun _ => .pure _
    refine (hI.usePatch _ _).bind fun reason => ?_
    cases reason with
    | none => exact (hI.debug _ _).bind fun _ => rest none
    | some why => exact (hI.error _ _).bind fun _ => rest (some why)

theorem revertAll : Keeps h I revertAll := by
  refine Keeps.get.bind fun _ => ?_
  split
  · exact .pure _
  · refine (hI.put _).bind fun _ => (hI.revertEach _).attempt.bind fun _ => ?_
    have settle : Keeps h I settle := Keeps.get.bind fun _ => (hI.put _).bind fun _ => hI.refreshIndex
    refine settle.bind fun _ => (Keeps.ofExcept _).bind fun ps => ?_
    cases ps with
    | nil => exact .pure _
    | cons p ps => exact .fail _

theorem giveUp (p why : String) : Keeps h I (giveUp p why) := hI.revertAll.bind fun _ => .fail _

theorem applyTried (p : String) : Keeps h I (applyTried p) := by
  have noted : Keeps h I (do
      let s ← current
      Series.put { s with count := s.count + 1, phase := .applied }
      Log.debug channel ("Applied patch " ++ p ++ " (" ++ toString (s.count + 1) ++ "/" ++
        toString s.patches.length ++ ")") : Act Unit) :=
    Keeps.get.bind fun _ => (hI.put _).bind fun _ => hI.debug _ _
  refine (hI.usePatch _ _).bind fun why => ?_
  cases why with
  | none => exact noted
  | some why => exact (hI.giveUp _ _).bind fun _ => noted

theorem applyOne (p : String) : Keeps h I (applyOne p) := by
  refine (Keeps.isFile _).bind fun _ => Keeps.guard (hI.giveUp _ _) fun _ => ?_
  refine (hI.usePatch _ _).bind fun why => ?_
  cases why with
  | none => exact hI.applyTried p
  | some why => exact (hI.giveUp _ _).bind fun _ => hI.applyTried p

theorem applyEach : ∀ ps : List String, Keeps h I (applyEach ps)
  | [] => .pure _
  | p :: ps => (hI.applyOne p).bind fun _ => applyEach ps

theorem apply : Keeps h I apply :=
  Keeps.get.bind fun _ => Keeps.guard (.fail _) fun _ => (hI.applyEach _).bind fun _ =>
    Keeps.get.bind fun _ => hI.put _

theorem revertAfter {α : Type} (cause : Fault) : Keeps h I (revertAfter cause : Act α) := by
  refine hI.revertAll.attempt.bind fun _ => ?_
  split
  · exact (hI.error _ _).bind fun _ => .throw _
  · exact (Keeps.throw _).bind fun _ => .throw _
  · exact .throw _

end Lasting

end Hotpatch
