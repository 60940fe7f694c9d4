import Hotpatch.Proofs.Pipeline.Stages

/-! Making a module of what the builds collected keeps a robust fact. The program writes copies of
new objects and a checksum; all else in the scratch directory comes from the tools. -/

namespace Hotpatch

/-- Where the linker leaves the differences. -/
def Aggregate.linked (a : Aggregate) : String := under (under a.work "patch") "tmp_output.o"

/-- Where the module is made. -/
def Aggregate.moduleAt (a : Aggregate) : String :=
  under (under a.work "patch") (a.moduleName ++ ".ko")

open Act

section Placid

variable {h : Host} {mine seen : String → Prop} {I : Site → Prop} (hI : Placid h mine seen I)
include hI

theorem Placid.perform {α : Type} (r : Kbuild.Resolver) (s : Kbuild.Search α) :
    Keeps h I (Kbuild.Search.perform r s) :=
  Keeps.disk.bind fun _ => Keeps.read.bind fun _ =>
    (Keeps.forM (fun _ => hI.emit _) _).bind fun _ => .pure _

theorem Placid.refine (r : Kbuild.Resolver) (o : ChangedObject) (v : Verdict) :
    Keeps h I (Aggregate.refine r o v) := by
  rw [Aggregate.refine]
  split
  · split
    · exact .throw _
    · exact (hI.error _ _).bind fun _ => .pure _
  · exact .pure _

theorem Placid.announceVerdict (o : ChangedObject) (owner : Kbuild.Binary) (v : Verdict) :
    Keeps h I (Aggregate.announce o owner v) := by
  cases v with
  | error => exact .pure _
  | _ => exact hI.info _ _

end Placid

namespace Robust

variable {h : Host} {mine seen : String → Prop} {I : Site → Prop} (hI : Robust h mine seen I)
include hI

theorem diff (d : Differ) (r : DiffRequest) : Keeps h I (d.diff r) := by
  have judge : ∀ c, Keeps h I (d.judge r c) := by
    intro c
    rw [Differ.judge]
    split
    · exact .pure _
    · split
      · exact .pure _
      · exact (hI.error _ _).bind fun _ => .pure _
  exact (hI.makeDirs _).bind fun _ => (Keeps.ofExcept _).bind fun _ =>
    (Keeps.ofExcept _).bind fun _ => (hI.runLoose _ _).bind fun _ => judge _

section Assembler

open Assembler

variable {a : Assembler}

theorem link (os : List String) (out : String) : Keeps h I (a.link os out) := by
  refine (hI.makeDirs _).bind fun _ => (Keeps.ofExcept _).bind fun _ => ?_
  refine (hI.runLoose _ _).bind fun _ => ?_
  split
  · exact .fail _
  · exact .pure _

theorem embedChecksum {linked : String} (hm : mine (under (parent linked) "checksum.tmp")) :
    Keeps h I (a.embedChecksum linked) := by
  refine (Placid.digest _ _).bind fun _ => (hI.write _ _ hm).bind fun _ => ?_
  refine (hI.runLoose _ _).bind fun _ => Keeps.guard (.fail _) fun _ => ?_
  exact (hI.debug _ _).bind fun _ => .pure _

theorem buildModule (linked name out : String) : Keeps h I (a.buildModule linked name out) := by
  refine (hI.makeDirs _).bind fun _ => (Keeps.ofExcept _).bind fun _ => ?_
  refine (hI.runLoose _ _).bind fun _ => ?_
  dsimp only
  split
  · refine (Keeps.present _).bind fun _ => ?_
    split
    · exact .fail _
    · exact .pure _
  · refine (Keeps.pure _).bind fun _ => ?_
    split
    · exact .fail _
    · exact .pure _

end Assembler

section Aggregate

open Aggregate

variable {a : Aggregate}

theorem takeNew {patched : String} {t : Tally} {o : ChangedObject}
    (hm : Within mine (under a.output o.path)) : Keeps h I (a.takeNew patched t o) :=
  (hI.stage hm).bind fun _ => (Keeps.ofExcept _).bind fun _ => (hI.info _ _).bind fun _ => .pure _

theorem contrast {original patched : String} {r : Kbuild.Resolver} {t : Tally} {o : ChangedObject}
    {owner : Kbuild.Binary} : Keeps h I (a.contrast original patched r t o owner) :=
  (hI.diff _ _).bind fun _ => (hI.refine _ _ _).bind fun _ => (Keeps.ofExcept _).bind fun _ =>
    (hI.announceVerdict _ _ _).bind fun _ => .pure _

theorem judge {original patched : String} {r : Kbuild.Resolver} {t : Tally} {o : ChangedObject}
    {owner : Kbuild.Binary} (hm : Within mine (under a.output o.path)) :
    Keeps h I (a.judge original patched r t o owner) := by
  have judged : ∀ old : Bool, Keeps h I
      (if old then a.contrast original patched r t o owner else a.takeNew patched t o) := by
    intro old
    split
    · exact hI.contrast
    · exact hI.takeNew hm
  rw [Aggregate.judge]
  split
  · exact (Keeps.pure _).bind judged
  · exact (Keeps.present _).bind judged

theorem examine {original patched : String} {r : Kbuild.Resolver} {t : Tally} {o : ChangedObject}
    (hm : Within mine (under a.output o.path)) : Keeps h I (a.examine original patched r t o) := by
  rw [Aggregate.examine]
  split
  · refine (hI.info _ _).bind fun _ => ?_
    split <;> exact .pure _
  · refine (hI.perform _ _).bind fun _ => ?_
    split
    · exact .pure _
    · refine (Keeps.attempt (hI.judge ?_)).bind fun _ => ?_
      · exact hm
      · split <;> exact .pure _

theorem survey {original patched : String} : ∀ (os : List ChangedObject) (r : Kbuild.Resolver)
    (t : Tally), (∀ o ∈ os, Within mine (under a.output o.path)) →
      Keeps h I (a.survey original patched r t os)
  | [], _, _, _ => .pure _
  | o :: os, _, _, hm => by
    refine (hI.examine (hm o (.head _))).bind fun _ => ?_
    split
    · exact .pure _
    · exact (survey os _ _ fun p hp => hm p (.tail _ hp)).bind fun _ => .pure _

theorem build (hk : mine (under (parent (a.linked)) "checksum.tmp")) (files : List String)
    (os : List ChangedObject) :
    Yields h I (a.build files os) (fun m t => (m.path = a.moduleAt ∧ m.objects = os) ∧ I t) I := by
  refine (hI.info _ _).then (fun _ => (hI.link _ _).then (fun _ => ?_) fun _ => id) fun _ => id
  refine (isRelocatableObject _).then (fun b => ?_) fun _ => id
  have made : ∀ checksum : Option String, Yields h I (do
      Log.info source ("Building patch module: " ++ fileName a.moduleAt)
      a.assembler.buildModule a.linked a.moduleName a.moduleAt
      return ⟨a.moduleName, a.moduleAt, a.linked, os, checksum⟩ : Act PatchModule)
      (fun m t => (m.path = a.moduleAt ∧ m.objects = os) ∧ I t) I := fun _ =>
    (hI.info _ _).then (fun _ => (hI.buildModule _ _ _).then (fun _ => .pure fun _ ht =>
      ⟨⟨rfl, rfl⟩, ht⟩) fun _ => id) fun _ => id
  have marked : Yields h I (do
      let checksum ← if a.shadow then some <$> a.assembler.embedChecksum a.linked else pure none
      Log.info source ("Building patch module: " ++ fileName a.moduleAt)
      a.assembler.buildModule a.linked a.moduleName a.moduleAt
      return ⟨a.moduleName, a.moduleAt, a.linked, os, checksum⟩ : Act PatchModule)
      (fun m t => (m.path = a.moduleAt ∧ m.objects = os) ∧ I t) I := by
    dsimp only
    split
    · refine Leads.then (Q := I) ?_ made fun _ => id
      exact (hI.embedChecksum hk).bind fun _ => .pure _
    · exact (Keeps.pure _).then made fun _ => id
  dsimp only
  split
  · exact .fail_bind fun _ => id
  · exact marked

theorem conclude (hk : mine (under (parent (a.linked)) "checksum.tmp")) (s : Survey) :
    Yields h I (a.conclude s) (fun m t => m.path = a.moduleAt ∧ I t) I := by
  rw [Aggregate.conclude]
  dsimp only
  split
  · exact .throw_bind fun _ => id
  · split
    · exact .fail_bind fun _ => id
    · split
      · exact .fail_bind fun _ => id
      · exact (hI.build hk _ _).mono (fun _ => id) (fun _ _ ht => ⟨ht.1.1, ht.2⟩) fun _ => id

theorem assembleModule {r : Kbuild.Resolver} {os : List ChangedObject} {original patched : String}
    (hk : mine (under (parent (a.linked)) "checksum.tmp"))
    (hm : ∀ o ∈ os, Within mine (under a.output o.path)) :
    Yields h I (a.assemble r os original patched)
      (fun s t => (∀ m, s.result = .ok m → m.path = a.moduleAt) ∧ I t) I := by
  refine (hI.info _ _).then (fun _ => ?_) fun _ => id
  refine (Keeps.attempt (hI.ensureDirectory _)).then (fun _ => ?_) fun _ => id
  split
  · exact .pure fun t ht => ⟨nofun, ht⟩
  · refine (hI.survey os r _ hm).then (fun s => ?_) fun _ => id
    refine (Yields.attempt (hI.conclude hk s)).bind fun m => ?_
    refine .pure fun t ht => ⟨fun v hv => (ht.1 v hv).1, ?_⟩
    rcases m with e | v
    · exact ht.2 e rfl
    · exact (ht.1 v rfl).2

end Aggregate

end Robust

end Hotpatch
