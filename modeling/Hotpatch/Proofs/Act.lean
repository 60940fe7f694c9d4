import Hotpatch.Host
import Hotpatch.Proofs.Except

/-! What is true of a site after an action, however the action ended. `Ends h P a Q` relates a
site before to the result and the site after; `Yields` does so for values and faults apart, `Leads`
leaves out the result, and `Keeps` is the case in which nothing is lost. `Raises` says which faults an
action can end with, wherever it starts. -/

namespace Hotpatch.Act

variable {α β : Type} {h : Host} {I P Q R : Site → Prop}

theorem pure_apply (h : Host) (t : Site) (a : α) : (pure a : Act α) h t = (.ok a, t) := rfl

theorem throw_apply (h : Host) (t : Site) (e : Fault) : (throw e : Act α) h t = (.error e, t) := rfl

theorem fail_apply (h : Host) (t : Site) (f : Failure) :
    (fail f : Act α) h t = (.error (.failure f), t) := rfl

theorem read_apply (h : Host) (t : Site) : (read : Act Host) h t = (.ok h, t) := rfl

theorem modify_apply (h : Host) (t : Site) (f : Site → Site) :
    (modify f : Act Unit) h t = (.ok (), f t) := rfl

theorem attempt_apply (h : Host) (t : Site) (a : Act α) :
    attempt a h t = (.ok (a h t).1, (a h t).2) := rfl

theorem attempt_of {a : Act α} {t u : Site} {r : Except Fault α} (ha : a h t = (r, u)) :
    attempt a h t = (.ok r, u) := by
  rw [attempt_apply, ha]

theorem ofExcept_apply (h : Host) (t : Site) (r : Except Fault α) : ofExcept r h t = (r, t) := by
  cases r <;> rfl

theorem bind_ok {a : Act α} {f : α → Act β} {t u : Site} {v : α} (ha : a h t = (.ok v, u)) :
    (a >>= f) h t = f v h u := by
  show (ExceptT.bind (a h) fun v => f v h) t = _
  simp only [ExceptT.bind, ExceptT.mk, bind, StateT.bind, ha]
  rfl

theorem bind_error {a : Act α} {f : α → Act β} {t u : Site} {e : Fault}
    (ha : a h t = (.error e, u)) : (a >>= f) h t = (.error e, u) := by
  show (ExceptT.bind (a h) fun v => f v h) t = _
  simp only [ExceptT.bind, ExceptT.mk, bind, StateT.bind, ha]
  rfl

/-- The two ways of a sequence: its first part fails, or its second part ends it. -/
theorem bind_cases {a : Act α} {f : α → Act β} {t t'' : Site} {r : Except Fault β}
    (hr : (a >>= f) h t = (r, t'')) :
    (∃ e, a h t = (.error e, t'') ∧ r = .error e) ∨
      ∃ v t', a h t = (.ok v, t') ∧ f v h t' = (r, t'') := by
  rcases ha : a h t with ⟨v | v, t'⟩
  · rw [bind_error ha] at hr
    cases hr
    exact .inl ⟨v, rfl, rfl⟩
  · rw [bind_ok ha] at hr
    exact .inr ⟨v, t', rfl, hr⟩

/-- A sequence that gives a value: both parts do. -/
theorem bind_of_ok {a : Act α} {f : α → Act β} {t t'' : Site} {v : β}
    (hr : (a >>= f) h t = (.ok v, t'')) :
    ∃ x t', a h t = (.ok x, t') ∧ f x h t' = (.ok v, t'') := by
  rcases bind_cases hr with ⟨e, -, he⟩ | hok
  · cases he
  · exact hok

theorem pure_of_ok {a v : α} {t t' : Site} (hr : (pure a : Act α) h t = (.ok v, t')) :
    v = a ∧ t' = t := by
  rw [pure_apply] at hr
  obtain ⟨hv, ht⟩ := Prod.mk.inj hr
  exact ⟨(Except.ok.inj hv).symm, ht.symm⟩

def Ends (h : Host) (P : Site → Prop) (a : Act α) (Q : Except Fault α → Site → Prop) : Prop :=
  ∀ t, P t → Q (a h t).1 (a h t).2

/-- A value comes with `Q`, a fault with `E`. -/
structure Yields (h : Host) (P : Site → Prop) (a : Act α) (Q : α → Site → Prop) (E : Site → Prop) :
    Prop where
  ok : ∀ {t v t'}, P t → a h t = (.ok v, t') → Q v t'
  error : ∀ {t e t'}, P t → a h t = (.error e, t') → E t'

/-- From a site of `P` to one of `Q`, whether or not the action fails. -/
def Leads (h : Host) (P Q : Site → Prop) (a : Act α) : Prop := ∀ t, P t → Q (a h t).2

abbrev Keeps (h : Host) (I : Site → Prop) (a : Act α) : Prop := Leads h I I a

theorem Ends.of_eq {a : Act α} {S : Except Fault α → Site → Prop}
    (ha : ∀ t r t', P t → a h t = (r, t') → S r t') : Ends h P a S :=
  fun t ht => ha t _ _ ht rfl

theorem Ends.eq {a : Act α} {S : Except Fault α → Site → Prop} (ha : Ends h P a S) {t t' : Site}
    {r : Except Fault α} (ht : P t) (hr : a h t = (r, t')) : S r t' := by
  have := ha t ht
  rwa [hr] at this

theorem Ends.bind {a : Act α} {f : α → Act β} {S : Except Fault α → Site → Prop}
    {U : Except Fault β → Site → Prop} (ha : Ends h P a S) (hf : ∀ v, Ends h (S (.ok v)) (f v) U)
    (he : ∀ e t, S (.error e) t → U (.error e) t) : Ends h P (a >>= f) U := by
  refine .of_eq fun t r t'' ht hr => ?_
  rcases bind_cases hr with ⟨e, ha', rfl⟩ | ⟨v, t', ha', hf'⟩
  · exact he _ _ (ha.eq ht ha')
  · exact (hf v).eq (ha.eq ht ha') hf'

theorem Ends.throw_bind {e : Fault} {f : α → Act β} {S : Except Fault β → Site → Prop}
    (he : ∀ t, P t → S (.error e) t) : Ends h P (MonadExcept.throw e >>= f) S := by
  intro t ht
  rw [bind_error (throw_apply h t e)]
  exact he t ht

theorem Ends.fail_bind {w : Failure} {f : α → Act β} {S : Except Fault β → Site → Prop}
    (he : ∀ t, P t → S (.error (.failure w)) t) : Ends h P (Act.fail w >>= f) S :=
  .throw_bind he

theorem Leads.ends {a : Act α} (ha : Leads h P Q a) : Ends h P a fun _ => Q := ha

theorem Leads.eq {a : Act α} (ha : Leads h P Q a) {t t' : Site} {r : Except Fault α} (ht : P t)
    (hr : a h t = (r, t')) : Q t' :=
  ha.ends.eq ht hr

theorem Leads.bind {a : Act α} {f : α → Act β} (ha : Leads h P Q a) (hf : ∀ v, Leads h Q R (f v))
    (he : ∀ t, Q t → R t) : Leads h P R (a >>= f) :=
  Ends.bind (U := fun _ => R) ha.ends (fun v => (hf v).ends) fun _ => he

theorem Leads.attempt {a : Act α} (ha : Leads h P Q a) : Leads h P Q (attempt a) := ha

section Yields

variable {a : Act α} {f : α → Act β} {S U : α → Site → Prop} {V : β → Site → Prop}
variable {E F : Site → Prop}

theorem Yields.of_eq (ha : ∀ t, P t → (∃ v t', a h t = (.ok v, t') ∧ S v t') ∨
    ∃ e t', a h t = (.error e, t') ∧ E t') : Yields h P a S E := by
  refine ⟨fun {t v t'} ht hr => ?_, fun {t e t'} ht hr => ?_⟩
  · obtain ⟨w, u, hw, hs⟩ | ⟨e, u, he, -⟩ := ha t ht
    · cases hr.symm.trans hw
      exact hs
    · cases hr.symm.trans he
  · obtain ⟨w, u, hw, -⟩ | ⟨e, u, he, hs⟩ := ha t ht
    · cases hr.symm.trans hw
    · cases hr.symm.trans he
      exact hs

theorem Yields.bind (ha : Yields h P a S E) (hf : ∀ v, Yields h (S v) (f v) V E) :
    Yields h P (a >>= f) V E := by
  refine ⟨fun ht hr => ?_, fun ht hr => ?_⟩
  · rcases bind_cases hr with ⟨e, -, he⟩ | ⟨v, t', hv, hr⟩
    · cases he
    · exact (hf v).ok (ha.ok ht hv) hr
  · rcases bind_cases hr with ⟨e, he, -⟩ | ⟨v, t', hv, hr⟩
    · exact ha.error ht he
    · exact (hf v).error (ha.ok ht hv) hr

theorem Yields.mono (ha : Yields h P a S E) (hp : ∀ t, Q t → P t) (hs : ∀ v t, S v t → U v t)
    (he : ∀ t, E t → F t) : Yields h Q a U F :=
  ⟨fun ht hr => hs _ _ (ha.ok (hp _ ht) hr), fun ht hr => he _ (ha.error (hp _ ht) hr)⟩

/-- What was found out before, apart from the site. -/
theorem Yields.given {c : Prop} (ha : c → Yields h P a S E) : Yields h (fun t => c ∧ P t) a S E :=
  ⟨fun ht => (ha ht.1).ok ht.2, fun ht => (ha ht.1).error ht.2⟩

theorem Yields.some {ι : Type} {T : ι → Site → Prop} (ha : ∀ i, Yields h (T i) a S E) :
    Yields h (fun t => ∃ i, T i t) a S E :=
  ⟨fun ⟨i, ht⟩ => (ha i).ok ht, fun ⟨i, ht⟩ => (ha i).error ht⟩

theorem Yields.pure {v : α} (hv : ∀ t, P t → S v t) : Yields h P (Pure.pure v : Act α) S E :=
  .of_eq fun t ht => .inl ⟨v, t, rfl, hv t ht⟩

theorem Yields.throw {e : Fault} (he : ∀ t, P t → E t) :
    Yields h P (MonadExcept.throw e : Act α) S E :=
  .of_eq fun t ht => .inr ⟨e, t, rfl, he t ht⟩

theorem Yields.fail {f : Failure} (he : ∀ t, P t → E t) : Yields h P (Act.fail f : Act α) S E :=
  .of_eq fun t ht => .inr ⟨_, t, rfl, he t ht⟩

theorem Yields.throw_bind {e : Fault} (he : ∀ t, P t → E t) :
    Yields h P (MonadExcept.throw e >>= f) V E :=
  .of_eq fun t ht => .inr ⟨e, t, bind_error rfl, he t ht⟩

theorem Yields.fail_bind {w : Failure} (he : ∀ t, P t → E t) :
    Yields h P (Act.fail w >>= f) V E :=
  .throw_bind he

theorem Yields.fails (ha : ∀ t, P t → ∃ e t', a h t = (.error e, t') ∧ E t') : Yields h P a S E :=
  .of_eq fun t ht => .inr (ha t ht)

theorem Yields.attempt (ha : Yields h P a S E) : Yields h P (Act.attempt a)
    (fun r t => (∀ v, r = .ok v → S v t) ∧ ∀ e, r = .error e → E t) F := by
  refine .of_eq fun t ht => .inl ⟨_, _, attempt_apply h t a, fun v hv => ?_, fun e he => ?_⟩
  · exact ha.ok ht (Prod.ext hv rfl)
  · exact ha.error ht (Prod.ext he rfl)

/-- A value that an action hands on without doing anything. -/
theorem Yields.ofExcept {r : Except Fault α} (hv : ∀ v, r = .ok v → ∀ t, P t → S v t)
    (he : ∀ t, P t → E t) : Yields h P (Act.ofExcept r) S E := by
  rcases r with e | v
  · exact .throw he
  · exact .pure (hv v rfl)

theorem Yields.leads (ha : Yields h P a S E) (hs : ∀ v t, S v t → Q t) (he : ∀ t, E t → Q t) :
    Leads h P Q a := by
  intro t ht
  rcases hr : a h t with ⟨e | v, t'⟩
  · exact he _ (ha.error ht hr)
  · exact hs _ _ (ha.ok ht hr)

theorem Leads.yields (ha : Leads h P Q a) (he : ∀ t, Q t → E t) : Yields h P a (fun _ => Q) E :=
  ⟨fun ht hr => ha.eq ht hr, fun ht hr => he _ (ha.eq ht hr)⟩

theorem Leads.then (ha : Leads h P Q a) (hf : ∀ v, Yields h Q (f v) V E) (he : ∀ t, Q t → E t) :
    Yields h P (a >>= f) V E :=
  (ha.yields he).bind hf

end Yields

theorem Keeps.bind {a : Act α} {f : α → Act β} (ha : Keeps h I a) (hf : ∀ v, Keeps h I (f v)) :
    Keeps h I (a >>= f) :=
  Leads.bind ha hf fun _ => id

theorem Keeps.attempt {a : Act α} (ha : Keeps h I a) : Keeps h I (attempt a) := ha

theorem Keeps.pure (v : α) : Keeps h I (Pure.pure v : Act α) := fun _ => id

theorem Keeps.throw (e : Fault) : Keeps h I (MonadExcept.throw e : Act α) := fun _ => id

theorem Keeps.fail (f : Failure) : Keeps h I (fail f : Act α) := fun _ => id

theorem Keeps.ofExcept (r : Except Fault α) : Keeps h I (ofExcept r) := by
  intro t ht
  rw [ofExcept_apply]
  exact ht

/-- A step that is taken only sometimes before the rest. -/
theorem Keeps.guard {c : Prop} [Decidable c] {a : Act PUnit} {f : PUnit → Act β}
    (ha : Keeps h I a) (hf : ∀ v, Keeps h I (f v)) : Keeps h I (if c then a >>= f else f ⟨⟩) := by
  split
  · exact ha.bind hf
  · exact hf _

theorem Keeps.get : Keeps h I (get : Act Site) := fun _ => id

theorem Keeps.read : Keeps h I (read : Act Host) := fun _ => id

theorem Keeps.disk : Keeps h I disk := Keeps.get.bind fun _ => .pure _

theorem Keeps.path : Keeps h I path := Keeps.read.bind fun _ => .pure _

theorem ask_apply (h : Host) (t : Site) (q : Disk → Place → α) :
    ask q h t = (.ok (q t.disk h.cwd), t) := rfl

theorem Keeps.ask (q : Disk → Place → α) : Keeps h I (ask q) :=
  Keeps.disk.bind fun _ => Keeps.read.bind fun _ => .pure _

theorem Keeps.query (q : Disk → Place → Except DiskError α) : Keeps h I (query q) := by
  refine Keeps.disk.bind fun _ => Keeps.read.bind fun _ => ?_
  split
  · exact .pure _
  · exact .throw _

theorem Keeps.present (p : String) : Keeps h I (present p) := (Keeps.query _).bind fun _ => .pure _

theorem Keeps.isFile (p : String) : Keeps h I (isFile p) := by
  refine (Keeps.query _).bind fun _ => ?_
  split <;> exact .pure _

theorem Keeps.isDir (p : String) : Keeps h I (isDir p) := (Keeps.query _).bind fun _ => .pure _

theorem Keeps.readText (p : String) : Keeps h I (readText p) := by
  refine (Keeps.query _).bind fun _ => ?_
  split
  · exact .pure _
  · exact .throw _

theorem Keeps.forM {f : α → Act Unit} (hf : ∀ a, Keeps h I (f a)) :
    ∀ as : List α, Keeps h I (as.forM f)
  | [] => .pure _
  | a :: as => (hf a).bind fun _ => Keeps.forM hf as

theorem query_apply (h : Host) (t : Site) (q : Disk → Place → Except DiskError α) :
    query q h t = ((q t.disk h.cwd).mapError Fault.ofDisk, t) := by
  rw [query, bind_ok (a := disk) (v := t.disk) (u := t) rfl, bind_ok (read_apply h t)]
  cases q t.disk h.cwd <;> rfl

theorem query_of_ok {q : Disk → Place → Except DiskError α} {t t' : Site} {v : α}
    (hr : query q h t = (.ok v, t')) : t' = t ∧ q t.disk h.cwd = .ok v := by
  rw [query_apply] at hr
  obtain ⟨hv, ht⟩ := Prod.mk.inj hr
  cases hq : q t.disk h.cwd with
  | error e =>
    rw [hq] at hv
    cases hv
  | ok w =>
    rw [hq] at hv
    exact ⟨ht.symm, congrArg Except.ok (Except.ok.inj hv)⟩

/-- Every fault that an action ends with is one of `E`. -/
def Raises (h : Host) (E : Fault → Prop) (a : Act α) : Prop :=
  ∀ t e t', a h t = (.error e, t') → E e

section Raises

variable {E : Fault → Prop} {a : Act α}

theorem Raises.of_ok (ha : ∀ t, ∃ v t', a h t = (.ok v, t')) : Raises h E a := by
  intro t e t' hr
  obtain ⟨v, u, hv⟩ := ha t
  cases hr.symm.trans hv

theorem Raises.bind {f : α → Act β} (ha : Raises h E a) (hf : ∀ v, Raises h E (f v)) :
    Raises h E (a >>= f) := by
  intro t e t'' hr
  rcases bind_cases hr with ⟨e', he, heq⟩ | ⟨v, t', -, hv⟩
  · cases heq
    exact ha _ _ _ he
  · exact hf v _ _ _ hv

theorem Raises.pure (v : α) : Raises h E (Pure.pure v : Act α) := nofun

theorem Raises.throw {e : Fault} (he : E e) : Raises h E (MonadExcept.throw e : Act α) := by
  rintro t _ t' ⟨⟩
  exact he

theorem Raises.fail {f : Failure} (he : E (.failure f)) : Raises h E (Act.fail f : Act α) := .throw he

theorem Raises.ofExcept {r : Except Fault α} (hr : ∀ e, r = .error e → E e) :
    Raises h E (Act.ofExcept r) := by
  intro t e t' h'
  rw [ofExcept_apply] at h'
  exact hr e (Prod.mk.inj h').1

/-- A step that is taken only sometimes before the rest. -/
theorem Raises.guard {c : Prop} [Decidable c] {a : Act PUnit} {f : PUnit → Act β}
    (ha : Raises h E a) (hf : ∀ v, Raises h E (f v)) :
    Raises h E (if c then a >>= f else f ⟨⟩) := by
  split
  · exact ha.bind hf
  · exact hf _

theorem Raises.attempt (a : Act α) : Raises h E (Act.attempt a) := nofun

/-- A fault that was caught is still one of `E`. -/
theorem Raises.catch {f : Except Fault α → Act β} (ha : Raises h E a)
    (hok : ∀ v, Raises h E (f (.ok v))) (herror : ∀ e, E e → Raises h E (f (.error e))) :
    Raises h E (Act.attempt a >>= f) := by
  intro t e t'' hr
  rw [bind_ok (attempt_apply h t a)] at hr
  rcases ha' : a h t with ⟨e' | v, t'⟩
  · rw [ha'] at hr
    exact herror e' (ha _ _ _ ha') _ _ _ hr
  · rw [ha'] at hr
    exact hok v _ _ _ hr

/-- What an attempt shows: a value as it should be, or a fault that can be. -/
theorem Raises.attempted {P F : Site → Prop} {S : α → Site → Prop} (he : Raises h E a)
    (ha : Yields h P a S fun _ => True) : Yields h P (Act.attempt a)
      (fun r t => (∀ v, r = .ok v → S v t) ∧ ∀ e, r = .error e → E e) F := by
  refine .of_eq fun t ht => .inl ⟨_, _, attempt_apply h t a, fun v hv => ?_, fun e he' => ?_⟩
  · exact ha.ok ht (Prod.ext hv rfl)
  · exact he t e _ (Prod.ext he' rfl)

theorem Raises.forM {f : α → Act Unit} (hf : ∀ a, Raises h E (f a)) :
    ∀ as : List α, Raises h E (as.forM f)
  | [] => .pure _
  | a :: as => (hf a).bind fun _ => Raises.forM hf as

section Disk

variable (hdisk : ∀ e, E (.ofDisk e))
include hdisk

theorem Raises.query (q : Disk → Place → Except DiskError α) : Raises h E (Act.query q) := by
  intro t e t' hr
  rw [query_apply] at hr
  rcases hq : q t.disk h.cwd with e' | v
  · rw [hq] at hr
    cases hr
    exact hdisk e'
  · rw [hq] at hr
    cases hr

theorem Raises.change (q : Disk → Place → Except DiskError Disk) : Raises h E (Act.change q) :=
  (Raises.query hdisk q).bind fun _ => .of_ok fun t => ⟨_, _, modify_apply h t _⟩

theorem Raises.makeDirs (p : String) : Raises h E (Act.makeDirs p) := by
  refine .bind (.of_ok fun t => ⟨t.disk, t, rfl⟩) fun d => .bind (.of_ok fun t => ⟨_, _, read_apply h t⟩)
    fun _ => .bind (.of_ok fun t => ⟨_, _, modify_apply h t _⟩) fun _ => ?_
  split
  · exact .throw (hdisk _)
  · exact .pure _

theorem Raises.present (p : String) : Raises h E (Act.present p) :=
  (Raises.query hdisk _).bind fun _ => .pure _

theorem Raises.isFile (p : String) : Raises h E (Act.isFile p) := by
  refine (Raises.query hdisk _).bind fun _ => ?_
  split <;> exact .pure _

end Disk

end Raises

end Hotpatch.Act

namespace Hotpatch.Log

/-- Logging never fails; it changes the log, and of the tree only log files. -/
theorem emit_apply (h : Host) (t : Site) (r : Record) :
    ∃ t', emit r h t = (.ok (), t') ∧ t'.series = t.series ∧ t'.events = t.events := by
  refine ⟨(emit r h t).2, rfl, ?_⟩
  have take : ∀ (ks : List Sink) (t : Site), (ks.foldl (Sink.take r) t).series = t.series ∧
      (ks.foldl (Sink.take r) t).events = t.events := by
    intro ks
    induction ks with
    | nil => exact fun _ => ⟨rfl, rfl⟩
    | cons k ks ih =>
      intro t
      have hk : (Sink.take r t k).series = t.series ∧ (Sink.take r t k).events = t.events := by
        cases k with
        | console l =>
          rw [Sink.take]
          split <;> exact ⟨rfl, rfl⟩
        | file p n => exact ⟨rfl, rfl⟩
      rw [List.foldl_cons, (ih _).1, (ih _).2]
      exact hk
  rw [emit, Act.modify_apply]
  split
  · exact take _ _
  · exact ⟨rfl, rfl⟩

theorem emit_records (h : Host) (t : Site) (r : Record) : (emit r h t).2.records = r :: t.records := by
  have take : ∀ (ks : List Sink) (t : Site), (ks.foldl (Sink.take r) t).records = t.records := by
    intro ks
    induction ks with
    | nil => exact fun _ => rfl
    | cons k ks ih =>
      intro t
      have hk : (Sink.take r t k).records = t.records := by
        cases k with
        | console l =>
          rw [Sink.take]
          split <;> rfl
        | file p n => rfl
      rw [List.foldl_cons, ih, hk]
  rw [emit, Act.modify_apply]
  split
  · exact take _ _
  · rfl

theorem emit_raises (h : Host) (E : Fault → Prop) (r : Record) : Act.Raises h E (emit r) :=
  .of_ok fun _ => ⟨(), _, rfl⟩

theorem forM_emit_apply (h : Host) (f : String → Record) : ∀ (ls : List String) (t : Site),
    ∃ t', ls.forM (fun l => emit (f l)) h t = (.ok (), t') ∧ t'.series = t.series ∧
      t'.events = t.events
  | [], t => ⟨t, rfl, rfl, rfl⟩
  | l :: ls, t => by
    obtain ⟨t₁, h₁, hs₁, he₁⟩ := emit_apply h t (f l)
    obtain ⟨t₂, h₂, hs₂, he₂⟩ := forM_emit_apply h f ls t₁
    exact ⟨t₂, (Act.bind_ok h₁).trans h₂, hs₂.trans hs₁, he₂.trans he₁⟩

end Hotpatch.Log
