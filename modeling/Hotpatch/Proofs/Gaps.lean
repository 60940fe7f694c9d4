import Hotpatch.Proofs.Module.Faults
import Hotpatch.Proofs.Sturdy

/-! Where faults come from. A run may end with a failure of the build or with an interrupt; any other
fault was let through by some action on the way. `Gaps` are the actions that may do so, `Meets` says that
one of them was taken in between two sites and went so, and `Blames` that every fault an action ends with
is expected or comes from a gap that was met. Since no action takes back an event (`Grows`), what was met
on the way stays so in all that comes behind it. -/

namespace Hotpatch

namespace Fault

end Fault

namespace Act

variable {α β : Type} {h : Host}

/-- What comes behind a step that is taken only sometimes. -/
theorem guard_of_ok {c : Prop} [Decidable c] {b : Act PUnit} {f : PUnit → Act β} {t u : Site} {v : β}
    (hr : (if c then b >>= f else f ⟨⟩) h t = (.ok v, u)) : ∃ t', f ⟨⟩ h t' = (.ok v, u) := by
  split at hr
  · obtain ⟨⟨⟩, t', -, hr⟩ := bind_of_ok hr
    exact ⟨t', hr⟩
  · exact ⟨t, hr⟩

/-- The events only become more. -/
def Grows (h : Host) (a : Act α) : Prop := ∀ t, t.events <:+ (a h t).2.events

/-- That some events came first stands all work. -/
theorem growing (h : Host) (mine : String → Prop) (past : List Event) :
    Sturdy h mine (fun _ => True) fun t => past <:+ t.events :=
  ⟨.of_events (J := fun _ es => past <:+ es) (fun _ _ _ _ _ hp => hp.trans (List.suffix_cons _ _))
    fun _ _ _ _ hp => hp.trans (List.suffix_cons _ _),
    fun _ _ hp => hp.trans (List.suffix_cons _ _), fun _ _ hp => hp⟩

section Grows

variable {a : Act α} {f : α → Act β}

/-- What every fact that stands all work stands. -/
theorem Grows.of_keeps (ha : ∀ {I : Site → Prop}, Sturdy h (fun _ => True) (fun _ => True) I → Keeps h I a) :
    Grows h a :=
  fun t => ha (growing h _ t.events) t (List.suffix_refl _)

theorem Grows.suffix (ha : Grows h a) {t u : Site} {r : Except Fault α} (hr : a h t = (r, u)) :
    t.events <:+ u.events := by
  have := ha t
  rwa [hr] at this

theorem Grows.bind_of {P : α → Prop} (ha : Grows h a) (hv : ∀ t v u, a h t = (.ok v, u) → P v)
    (hf : ∀ v, P v → Grows h (f v)) : Grows h (a >>= f) := by
  intro t
  rcases hr : a h t with ⟨e | v, t'⟩
  · rw [bind_error hr]
    exact ha.suffix hr
  · rw [bind_ok hr]
    exact (ha.suffix hr).trans (hf v (hv t v t' hr) t')

theorem Grows.bind (ha : Grows h a) (hf : ∀ v, Grows h (f v)) : Grows h (a >>= f) :=
  ha.bind_of (P := fun _ => True) (fun _ _ _ _ => trivial) fun v _ => hf v

theorem Grows.pure (v : α) : Grows h (Pure.pure v : Act α) := .of_keeps fun _ => .pure v

theorem Grows.throw (e : Fault) : Grows h (MonadExcept.throw e : Act α) := .of_keeps fun _ => .throw e

theorem Grows.ofExcept (r : Except Fault α) : Grows h (Act.ofExcept r) := .of_keeps fun _ => .ofExcept r

theorem Grows.query (q : Disk → Place → Except DiskError α) : Grows h (Act.query q) :=
  .of_keeps fun _ => .query q

theorem Grows.change (q : Disk → Place → Except DiskError Disk) : Grows h (Act.change q) :=
  (Grows.query q).bind fun _ _ => List.suffix_refl _

theorem Grows.makeDirs (p : String) : Grows h (Act.makeDirs p) := .of_keeps fun hI => hI.makeDirs p

theorem Grows.start (s : Start) : Grows h (Tool.start s) := .of_keeps fun hI => hI.toLasting.tool s

end Grows

/-- The actions that let a fault through, each with how it went. -/
abbrev Gaps := Fault → {β : Type} → Act β → Except Fault β → Prop

/-- In between two sites an action of the given kind is taken, which goes as told there. -/
inductive Meets (h : Host) (P : {β : Type} → Act β → Except Fault β → Prop) (t u : Site) : Prop
  | taken {β : Type} {a : Act β} {r : Except Fault β} {t₁ u₁ : Site} :
    P a r → a h t₁ = (r, u₁) → t.events <:+ t₁.events → u₁.events <:+ u.events → Meets h P t u

section Meets

variable {P Q : {β : Type} → Act β → Except Fault β → Prop} {a : Act α} {t t' u u' : Site}

theorem Meets.here {r : Except Fault α} (hp : P a r) (hr : a h t = (r, u)) : Meets h P t u :=
  .taken hp hr (List.suffix_refl _) (List.suffix_refl _)

theorem Meets.mono (hpq : ∀ {β : Type} {a : Act β} {r : Except Fault β}, P a r → Q a r)
    (hm : Meets h P t u) : Meets h Q t u := by
  obtain ⟨hp, hr, ht, hu⟩ := hm
  exact .taken (hpq hp) hr ht hu

/-- What was met is met from any earlier site. -/
theorem Meets.since (hm : Meets h P t u) (ht : t'.events <:+ t.events) : Meets h P t' u := by
  obtain ⟨hp, hr, ht₁, hu⟩ := hm
  exact .taken hp hr (ht.trans ht₁) hu

end Meets

/-- Every fault that an action ends with is one of `E` or comes from a gap. -/
structure Blames (h : Host) (G : Gaps) (E : Fault → Prop) (a : Act α) : Prop where
  grows : Grows h a
  told : ∀ t e u, a h t = (.error e, u) → E e ∨ Meets h (G e) t u

/-- The same for the faults that an action hands on in its value. -/
structure BlamesIn (h : Host) (G : Gaps) (E : Fault → Prop) (q : α → Option Fault) (a : Act α) :
    Prop where
  grows : Grows h a
  told : ∀ t v u e, a h t = (.ok v, u) → q v = some e → E e ∨ Meets h (G e) t u

/-- The fault of an action that was attempted. -/
def caught : Except Fault α → Option Fault
  | .error e => some e
  | .ok _ => none

variable {G G' : Gaps} {E E' : Fault → Prop} {a : Act α} {f : α → Act β}

section Blames

theorem Raises.blames (ha : Raises h E a) (hg : Grows h a) : Blames h G E a :=
  ⟨hg, fun t e u hr => .inl (ha t e u hr)⟩

/-- An action that is a gap by itself, or is one where it doesn't end with something expected. -/
theorem Blames.gap (hg : Grows h a)
    (ha : ∀ t e u, a h t = (.error e, u) → E e ∨ G e a (.error e)) : Blames h G E a :=
  ⟨hg, fun t e u hr => (ha t e u hr).imp_right fun hp => .here hp hr⟩

theorem Blames.of_ok (hg : Grows h a) (ha : ∀ t, ∃ v t', a h t = (.ok v, t')) : Blames h G E a :=
  (Raises.of_ok ha).blames hg

/-- A gap for all faults. -/
theorem Blames.here (hg : Grows h a) (hp : ∀ e, G e a (.error e)) : Blames h G E a :=
  .gap hg fun _ e _ _ => .inr (hp e)

theorem Blames.mono (ha : Blames h G E a) (he : ∀ e, E e → E' e)
    (hg : ∀ {e : Fault} {β : Type} {a : Act β} {r : Except Fault β}, G e a r → G' e a r) :
    Blames h G' E' a :=
  ⟨ha.grows, fun t e u hr => (ha.told t e u hr).imp (he e) (.mono hg)⟩

/-- Goes on only from values that the action can give. -/
theorem Blames.bind_of {P : α → Prop} (ha : Blames h G E a)
    (hv : ∀ t v u, a h t = (.ok v, u) → P v) (hf : ∀ v, P v → Blames h G E (f v)) :
    Blames h G E (a >>= f) := by
  refine ⟨ha.grows.bind_of hv fun v hp => (hf v hp).grows, fun t e u hr => ?_⟩
  rcases bind_cases hr with ⟨e', hr', heq⟩ | ⟨v, t', hr', hr⟩
  · cases heq
    exact ha.told t e u hr'
  · exact ((hf v (hv t v t' hr')).told t' e u hr).imp_right (.since · (ha.grows.suffix hr'))

theorem Blames.bind (ha : Blames h G E a) (hf : ∀ v, Blames h G E (f v)) :
    Blames h G E (a >>= f) :=
  ha.bind_of (P := fun _ => True) (fun _ _ _ _ => trivial) fun v _ => hf v

theorem Blames.pure (v : α) : Blames h G E (Pure.pure v : Act α) := (Raises.pure v).blames (.pure v)

theorem Blames.throw {e : Fault} (he : E e) : Blames h G E (MonadExcept.throw e : Act α) :=
  (Raises.throw he).blames (.throw e)

theorem Blames.throw_bind {e : Fault} (he : E e) :
    Blames h G E ((MonadExcept.throw e : Act α) >>= f) := by
  refine ⟨fun t => ?_, fun t e' u hr => ?_⟩
  · simp only [bind_error (throw_apply h t e), List.suffix_refl]
  · rw [bind_error (throw_apply h t e)] at hr
    cases hr
    exact .inl he

theorem Blames.fail {w : Failure} (he : E (.failure w)) : Blames h G E (Act.fail w : Act α) :=
  .throw he

theorem Blames.fail_bind {w : Failure} (he : E (.failure w)) :
    Blames h G E ((Act.fail w : Act α) >>= f) :=
  .throw_bind he

theorem Blames.ofExcept {r : Except Fault α} (hr : ∀ e, r = .error e → E e) :
    Blames h G E (Act.ofExcept r) :=
  (Raises.ofExcept hr).blames (.ofExcept r)

/-- A step that is taken only sometimes before the rest. -/
theorem Blames.guard {c : Prop} [Decidable c] {b : Act PUnit} {f : PUnit → Act β}
    (hb : Blames h G E b) (hf : ∀ v, Blames h G E (f v)) :
    Blames h G E (if c then b >>= f else f ⟨⟩) := by
  split
  · exact hb.bind hf
  · exact hf _

/-- What comes behind a refusal that was not made. -/
theorem Blames.refuse {c : Prop} [Decidable c] {w : Failure} {f : PUnit → Act β}
    (hw : E (.failure w)) (hf : ¬ c → ∀ v, Blames h G E (f v)) :
    Blames h G E (if c then Act.fail w >>= f else f ⟨⟩) := by
  split
  · exact .fail_bind hw
  next hc => exact hf hc _

theorem Blames.forM {f : α → Act Unit} : ∀ {as : List α}, (∀ a ∈ as, Blames h G E (f a)) →
    Blames h G E (as.forM f)
  | [], _ => .pure _
  | a :: _, hf => (hf a List.mem_cons_self).bind fun _ =>
    Blames.forM fun b hb => hf b (List.mem_cons_of_mem a hb)

theorem Blames.read : Blames h G E (read : Act Host) :=
  .of_ok (.of_keeps fun _ => .read) fun t => ⟨_, t, read_apply h t⟩

theorem Blames.ask (q : Disk → Place → α) : Blames h G E (Act.ask q) :=
  .of_ok (.of_keeps fun _ => .ask q) fun t => ⟨_, t, ask_apply h t q⟩

end Blames

section BlamesIn

variable {p : α → Option Fault} {q : β → Option Fault}

theorem BlamesIn.gap (hg : Grows h a)
    (ha : ∀ t v u e, a h t = (.ok v, u) → p v = some e → E e ∨ G e a (.ok v)) : BlamesIn h G E p a :=
  ⟨hg, fun t v u e hr he => (ha t v u e hr he).imp_right fun hp => .here hp hr⟩

theorem BlamesIn.pure {v : α} (hv : ∀ e, p v = some e → E e) :
    BlamesIn h G E p (Pure.pure v : Act α) := by
  refine ⟨.pure v, fun t w u e hr he => ?_⟩
  obtain ⟨rfl, -⟩ := pure_of_ok hr
  exact .inl (hv e he)

theorem BlamesIn.bare {v : α} (hv : p v = none) : BlamesIn h G E p (Pure.pure v : Act α) := by
  refine .pure fun e he => ?_
  rw [hv] at he
  cases he

theorem BlamesIn.attempt (ha : Blames h G E a) : BlamesIn h G E caught (Act.attempt a) := by
  refine ⟨ha.grows, fun t r u e hr he => ?_⟩
  rw [attempt_apply] at hr
  obtain ⟨hr, hu⟩ := Prod.mk.inj hr
  cases hr
  subst hu
  rcases ha' : a h t with ⟨e' | v, t'⟩
  · rw [ha'] at he
    cases he
    exact ha.told t _ t' ha'
  · rw [ha'] at he
    cases he

theorem BlamesIn.bind (ha : Grows h a) (hf : ∀ v, BlamesIn h G E q (f v)) :
    BlamesIn h G E q (a >>= f) := by
  refine ⟨ha.bind fun v => (hf v).grows, fun t v u e hr he => ?_⟩
  obtain ⟨x, t', hx, hr⟩ := bind_of_ok hr
  exact ((hf x).told t' v u e hr he).imp_right (.since · (ha.suffix hx))

theorem BlamesIn.guard {c : Prop} [Decidable c] {b : Act PUnit} {f : PUnit → Act β}
    (hb : Grows h b) (hf : ∀ v, BlamesIn h G E q (f v)) :
    BlamesIn h G E q (if c then b >>= f else f ⟨⟩) := by
  split
  · exact .bind hb hf
  · exact hf _

end BlamesIn

end Act

section Tools

open Act Command Fault

variable {h : Host} {G : Gaps}

end Tools

end Hotpatch
