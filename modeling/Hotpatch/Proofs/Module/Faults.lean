import Hotpatch.Proofs.Pipeline.Assembly

/-! Where the failures of a comparison come from. Nothing that is done for an object or for the module
ends with one: they are told only after all objects were examined. -/

namespace Hotpatch

open Act

namespace Fault

/-- Whether a fault says how a comparison came out. -/
def isDiff : Fault → Bool
  | .failure (.diff _ _) => true
  | _ => false

def IsOther (e : Fault) : Prop := e.isDiff = false

theorem isOther_ofDisk (e : DiskError) : (Fault.ofDisk e).IsOther := by
  cases e with
  | failed why path => cases why <;> rfl
  | _ => rfl

theorem isOther_refusal (argv : List String) (r : Refusal) : (r.fault argv).IsOther := by
  cases r <;> rfl

theorem isOther_text {j : Json} {e : Fault} (he : j.text = .error e) : e.IsOther := by
  cases j <;> cases he <;> rfl

theorem isOther_environment {l : Layout} {e : Fault} (he : l.environment = .error e) :
    e.IsOther := by
  refine error_of_mapM (fun p e hp => ?_) he
  split at hp
  · cases hp
  · cases hp
    rfl

theorem isOther_argv {d : Differ} {r : DiffRequest} {e : Fault} (he : d.argv r = .error e) :
    e.IsOther := by
  rw [Differ.argv] at he
  rcases htool : d.tool.text with e' | tool
  · rw [htool] at he
    cases he
    exact isOther_text htool
  · rw [htool] at he
    cases he

theorem isOther_settle {o : ChangedObject} {v : Verdict} {e : Fault} (he : o.settle v = .error e) :
    e.IsOther := by
  rw [ChangedObject.settle] at he
  split at he <;> cases he
  rfl

end Fault

variable {h : Host}

section Command

open Command

theorem Tool.start_raises (s : Start) : Raises h Fault.IsOther (Tool.start s) := by
  refine .bind (.of_ok fun t => ⟨_, _, rfl⟩) fun r => ?_
  split
  · exact .pure _
  · exact .throw (Fault.isOther_refusal _ _)

theorem record_raises (E : Fault → Prop) (e : Event) : Raises h E (record e) :=
  .of_ok fun t => ⟨_, _, modify_apply h t _⟩

theorem signalAll_raises (E : Fault → Prop) (s : Signal) :
    ∀ ms : List Member, Raises h E (signalAll s ms)
  | [] => .pure _
  | _ :: ms => ((record_raises E _).bind fun _ => .pure _).bind fun _ => signalAll_raises E s ms

theorem terminateFamily_raises (E : Fault → Prop) (f : Family) (limit : Int) :
    Raises h E (terminateFamily f limit) := by
  rw [terminateFamily]
  split
  · exact .pure _
  · exact (signalAll_raises E _ _).bind fun _ => (record_raises E _).bind fun _ =>
      signalAll_raises E _ _

/-- Following a tool that was started ends with nothing but an interrupt. -/
theorem follow_raises {E : Fault → Prop} (hinterrupt : E .interrupted) (argv : List String)
    (o : Outcome) : Raises h E (follow argv o) := by
  rw [follow]
  split
  · exact (Raises.forM (fun _ => Log.emit_raises h _ _) _).bind fun _ => .pure _
  · exact (Raises.forM (fun _ => Log.emit_raises h _ _) _).bind fun _ =>
      (Log.emit_raises h _ _).bind fun _ => (terminateFamily_raises _ _ _).bind fun _ =>
        .throw hinterrupt

/-- A streamed tool that runs in no tree. -/
theorem run_raises (argv : List String) (env : List (String × String)) :
    Raises h Fault.IsOther (run argv none env) := by
  refine (Log.emit_raises h _ _).bind fun _ => (Tool.start_raises _).bind fun o => ?_
  refine .catch (follow_raises (E := Fault.IsOther) rfl argv o) (fun r => ?_) fun e he => ?_
  · exact (record_raises _ _).bind fun _ => .ofExcept nofun
  · refine (record_raises _ _).bind fun _ => .ofExcept fun e' he' => ?_
    cases he'
    exact he

end Command

section Staging

open Staging Fault

theorem digest_raises (p algorithm : String) : Raises h IsOther (digest p algorithm) := by
  rw [digest]
  refine Raises.guard (.throw rfl) fun _ => ?_
  split
  · exact .throw rfl
  · refine (Raises.query isOther_ofDisk _).bind fun _ => ?_
    split
    · exact .pure _
    · exact .throw rfl

theorem stage_raises (source path target : String) :
    Raises h IsOther (stage source path target) := by
  refine .catch ((Raises.makeDirs isOther_ofDisk _).bind fun _ => .change isOther_ofDisk _)
    (fun _ => .pure _) fun e he => ?_
  split
  · next heq => cases heq
  · exact .fail rfl
  · next _ heq =>
    cases heq
    exact .throw he

end Staging

section Module

open Fault

theorem diff_raises (d : Differ) (r : DiffRequest) : Raises h IsOther (d.diff r) := by
  have judge : ∀ c, Raises h IsOther (d.judge r c) := by
    intro c
    rw [Differ.judge]
    split
    · exact .pure _
    · split
      · exact .pure _
      · exact (Log.emit_raises h _ _).bind fun _ => .pure _
  exact (Raises.makeDirs isOther_ofDisk _).bind fun _ =>
    (Raises.ofExcept fun _ => isOther_environment).bind fun _ =>
      (Raises.ofExcept fun _ => isOther_argv).bind fun _ => (run_raises _ _).bind fun _ => judge _

variable {a : Assembler}

theorem link_raises (os : List String) (out : String) : Raises h IsOther (a.link os out) := by
  refine (Raises.makeDirs isOther_ofDisk _).bind fun _ => ?_
  refine (Raises.ofExcept fun e he => error_of_mapM (fun _ _ => isOther_text) he).bind fun _ => ?_
  refine (run_raises _ _).bind fun _ => ?_
  split
  · exact .fail rfl
  · exact .pure _

theorem embedChecksum_raises (linked : String) : Raises h IsOther (a.embedChecksum linked) := by
  refine (digest_raises _ _).bind fun _ => (Raises.change isOther_ofDisk _).bind fun _ => ?_
  refine (run_raises _ _).bind fun _ => ?_
  refine Raises.guard (.fail rfl) fun _ => ?_
  exact (Log.emit_raises h _ _).bind fun _ => .pure _

theorem buildModule_raises (linked name out : String) :
    Raises h IsOther (a.buildModule linked name out) := by
  refine (Raises.makeDirs isOther_ofDisk _).bind fun _ => ?_
  refine (Raises.ofExcept fun _ => isOther_text).bind fun _ => (run_raises _ _).bind fun _ => ?_
  dsimp only
  split
  · refine (Raises.present isOther_ofDisk _).bind fun _ => ?_
    split
    · exact .fail rfl
    · exact .pure _
  · refine (Raises.pure _).bind fun _ => ?_
    split
    · exact .fail rfl
    · exact .pure _

theorem isRelocatableObject_raises (p : String) :
    Raises h IsOther (Elf.isRelocatableObject p) := by
  refine (Raises.isFile isOther_ofDisk _).bind fun _ => ?_
  split
  · exact (Raises.query isOther_ofDisk _).bind fun _ => .pure _
  · exact .pure _

end Module

namespace Aggregate

open Fault

variable {a : Aggregate}

theorem refine_raises (r : Kbuild.Resolver) (o : ChangedObject) (v : Verdict) :
    Raises h IsOther (refine r o v) := by
  rw [Aggregate.refine]
  split
  · split
    · exact .throw rfl
    · exact (Log.emit_raises h _ _).bind fun _ => .pure _
  · exact .pure _

theorem announce_raises (E : Fault → Prop) (o : ChangedObject) (owner : Kbuild.Binary) (v : Verdict) :
    Raises h E (announce o owner v) := by
  cases v with
  | error => exact .pure _
  | _ => exact Log.emit_raises h _ _

theorem takeNew_raises (patched : String) (t : Tally) (o : ChangedObject) :
    Raises h IsOther (a.takeNew patched t o) :=
  (stage_raises _ _ _).bind fun _ => (Raises.ofExcept fun _ => isOther_settle).bind fun _ =>
    (Log.emit_raises h _ _).bind fun _ => .pure _

theorem contrast_raises (original patched : String) (r : Kbuild.Resolver) (t : Tally)
    (o : ChangedObject) (owner : Kbuild.Binary) :
    Raises h IsOther (a.contrast original patched r t o owner) :=
  (diff_raises _ _).bind fun _ => (refine_raises _ _ _).bind fun _ =>
    (Raises.ofExcept fun _ => isOther_settle).bind fun _ =>
      (announce_raises _ _ _ _).bind fun _ => .pure _

theorem judge_raises (original patched : String) (r : Kbuild.Resolver) (t : Tally)
    (o : ChangedObject) (owner : Kbuild.Binary) :
    Raises h IsOther (a.judge original patched r t o owner) := by
  have judged : ∀ old : Bool, Raises h IsOther
      (if old then a.contrast original patched r t o owner else a.takeNew patched t o) := by
    intro old
    split
    · exact contrast_raises _ _ _ _ _ _
    · exact takeNew_raises _ _ _
  rw [Aggregate.judge]
  split
  · exact (Raises.pure _).bind judged
  · exact (Raises.present isOther_ofDisk _).bind judged

/-- The module itself is never refused for what the comparison found. -/
theorem build_raises (outputs : List String) (included : List ChangedObject) :
    Raises h IsOther (a.build outputs included) := by
  refine (Log.emit_raises h _ _).bind fun _ => (link_raises _ _).bind fun _ => ?_
  refine (isRelocatableObject_raises _).bind fun linkable => ?_
  have made : ∀ checksum : Option String, Raises h IsOther (do
      Log.info Aggregate.source ("Building patch module: " ++ fileName a.moduleAt)
      a.assembler.buildModule a.linked a.moduleName a.moduleAt
      return ⟨a.moduleName, a.moduleAt, a.linked, included, checksum⟩ : Act PatchModule) := fun _ =>
    (Log.emit_raises h _ _).bind fun _ => (buildModule_raises _ _ _).bind fun _ => .pure _
  have marked : Raises h IsOther (do
      let checksum ← if a.shadow then some <$> a.assembler.embedChecksum a.linked else pure none
      Log.info Aggregate.source ("Building patch module: " ++ fileName a.moduleAt)
      a.assembler.buildModule a.linked a.moduleName a.moduleAt
      return ⟨a.moduleName, a.moduleAt, a.linked, included, checksum⟩ : Act PatchModule) := by
    dsimp only
    split
    · exact ((embedChecksum_raises _).bind fun _ => .pure _).bind made
    · exact (Raises.pure _).bind made
  exact Raises.guard (.fail rfl) fun _ => marked

end Aggregate

end Hotpatch
