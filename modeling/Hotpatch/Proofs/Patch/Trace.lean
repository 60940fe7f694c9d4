import Hotpatch.Patch.Application

/-! What the events of a run, newest first, tell about the patches in the tree. `standing` goes by
what the patch tool reports: a patch is in from an application with status 0 to a revert with
status 0. `stack` counts a patch as out as soon as its revert has ended. Where every revert is one
of the top of the stack and none fails, the two agree. -/

namespace Hotpatch

/-- Whether a start is one of the patch tool on a tree, what for and with which patch. -/
def Start.patchUse? (s : Start) : Option (Series.Use × String) :=
  match s with
  | ⟨["patch", "-p1", "-N", "--dry-run", "-i", p], some _, .captured⟩ => some (.trial, p)
  | ⟨["patch", "-p1", "-N", "-i", p], some _, .captured⟩ => some (.apply, p)
  | ⟨["patch", "-p1", "-R", "-i", p], some _, .captured⟩ => some (.revert, p)
  | _ => none

/-- Whether a start is one of a build: streamed, and inside a tree. -/
def Start.isBuild (s : Start) : Bool := s.cwd.isSome && s.mode ≠ .captured

namespace Event

def isRun : Event → Bool
  | .ran _ _ => true
  | _ => false

def isBuild : Event → Bool
  | .ran s _ => s.isBuild
  | _ => false

def patchStart? : Event → Option (Series.Use × String)
  | .ran s _ => s.patchUse?
  | _ => none

/-- A use of the patch tool that ended, and whether it ended with status 0. -/
def patchEnd? : Event → Option (Series.Use × String × Bool)
  | .ran s (.ok o) => s.patchUse?.map fun u => (u.1, u.2, o.status = 0)
  | _ => none

def isRefused : Event → Bool
  | .ran _ (.error _) => true
  | _ => false

/-- Whether an event starts nothing but the patch tool or git. -/
def isOfSeries : Event → Bool
  | .ran s _ => s.argv.head? = some "patch" || s.argv.head? = some "git"
  | _ => true

/-- The patch that was applied with status 0. -/
def applied? (e : Event) : Option String :=
  match e.patchEnd? with
  | some (.apply, p, true) => some p
  | _ => none

/-- The patch whose revert ended, with whatever status. -/
def reverted? (e : Event) : Option String :=
  match e.patchEnd? with
  | some (.revert, p, _) => some p
  | _ => none

end Event

namespace Series

/-- The patches that were applied with status 0 and not reverted with status 0, the last first. -/
def standing : List Event → List String
  | [] => []
  | e :: past => match e.patchEnd? with
    | some (.apply, p, true) => p :: standing past
    | some (.revert, p, true) => (standing past).erase p
    | _ => standing past

/-- The patches that were applied with status 0 and whose revert hasn't ended, the last first. -/
def stack : List Event → List String
  | [] => []
  | e :: past => match e.patchEnd? with
    | some (.apply, p, true) => p :: stack past
    | some (.revert, _, _) => (stack past).tail
    | _ => stack past

/-- The patches that were applied with status 0, in this order. -/
def applications (events : List Event) : List String := (events.filterMap Event.applied?).reverse

/-- The patches whose revert ended, in this order. -/
def reverts (events : List Event) : List String := (events.filterMap Event.reverted?).reverse

/-- Whether a patch may be used so after the events so far: a revert is one of the top of the stack,
an application is one of the next patch and comes right after its trial. -/
def Allowed (patches : List String) (past : List Event) : Use → String → Prop
  | .trial, _ => True
  | .apply, p => patches[(stack past).length]? = some p ∧
      past.head?.bind Event.patchEnd? = some (.trial, p, true)
  | .revert, p => (stack past).head? = some p

def Orderly (patches : List String) : List Event → Prop
  | [] => True
  | e :: past => Orderly patches past ∧
      ∀ u p, e.patchStart? = some (u, p) → Allowed patches past u p

/-- No revert ended with a status other than 0. -/
def Clean (events : List Event) : Prop := ∀ e ∈ events, ∀ p, e.patchEnd? ≠ some (.revert, p, false)

end Series

open Series

theorem Event.patchEnd?_eq_none {e : Event} (he : e.patchStart? = none) : e.patchEnd? = none := by
  rcases e with ⟨s, _ | o⟩ | _ | _ | _ | _ <;> first | rfl | skip
  simp only [patchStart?] at he
  simp [patchEnd?, he]

theorem Event.patchStart?_of_end {e : Event} {u : Use} {p : String} {b : Bool}
    (he : e.patchEnd? = some (u, p, b)) : e.patchStart? = some (u, p) := by
  rcases e with ⟨s, _ | o⟩ | _ | _ | _ | _ <;> first | cases he | skip
  obtain ⟨v, hv, he⟩ := Option.map_eq_some_iff.1 he
  cases he
  exact hv

theorem Event.applied?_eq_none {e : Event} (he : e.patchStart? = none) : e.applied? = none := by
  rw [applied?, patchEnd?_eq_none he]

theorem Start.patchUse?_argv (p tree : String) (u : Use) :
    Start.patchUse? ⟨u.argv p, some tree, .captured⟩ = some (u, p) := by
  cases u <;> rfl

namespace Series

variable {patches : List String} {new past : List Event}

theorem stack_append (hn : ∀ e ∈ new, e.patchStart? = none) : stack (new ++ past) = stack past := by
  induction new with
  | nil => rfl
  | cons e new ih =>
    have he := Event.patchEnd?_eq_none (hn e (by simp))
    rw [List.cons_append, stack, he]
    exact ih fun e he => hn e (List.mem_cons_of_mem _ he)

theorem orderly_append (hn : ∀ e ∈ new, e.patchStart? = none) (hp : Orderly patches past) :
    Orderly patches (new ++ past) := by
  induction new with
  | nil => exact hp
  | cons e new ih =>
    refine ⟨ih fun e he => hn e (List.mem_cons_of_mem _ he), fun u p he => ?_⟩
    rw [hn e (by simp)] at he
    cases he

/-- As long as no patch was used, any series is in order. -/
theorem orderly_of_unused (hn : ∀ e ∈ new, e.patchStart? = none) : Orderly patches new := by
  have := orderly_append hn (show Orderly patches [] from trivial)
  rwa [List.append_nil] at this

theorem clean_append : Clean (new ++ past) ↔ Clean new ∧ Clean past := by
  simp [Clean, or_imp, forall_and]

theorem clean_of_unused (hn : ∀ e ∈ new, e.patchStart? = none) : Clean new := by
  intro e he p hp
  rw [Event.patchEnd?_eq_none (hn e he)] at hp
  cases hp

theorem clean_cons {e : Event} : Clean (e :: past) ↔
    (∀ p, e.patchEnd? ≠ some (.revert, p, false)) ∧ Clean past := by
  simp [Clean]

theorem Orderly.tail {e : Event} (ho : Orderly patches (e :: past)) : Orderly patches past := ho.1

theorem applications_append : applications (new ++ past) = applications past ++ applications new := by
  rw [applications, List.filterMap_append, List.reverse_append]
  rfl

theorem reverts_append : reverts (new ++ past) = reverts past ++ reverts new := by
  rw [reverts, List.filterMap_append, List.reverse_append]
  rfl

theorem applications_of_unused (hn : ∀ e ∈ new, e.patchStart? = none) : applications new = [] := by
  rw [applications, List.reverse_eq_nil_iff, List.filterMap_eq_nil_iff]
  exact fun e he => Event.applied?_eq_none (hn e he)

theorem applications_cons (e : Event) :
    applications (e :: past) = applications past ++ e.applied?.toList := by
  rw [applications, List.filterMap_cons]
  cases e.applied? <;> simp [applications]

theorem reverts_cons (e : Event) : reverts (e :: past) = reverts past ++ e.reverted?.toList := by
  rw [reverts, List.filterMap_cons]
  cases e.reverted? <;> simp [reverts]

/-- As long as nothing comes out, the stack grows by what goes in. -/
theorem stack_of_applications (past : List Event) (hn : reverts new = []) :
    stack (new ++ past) = (applications new).reverse ++ stack past := by
  induction new with
  | nil => rfl
  | cons e new ih =>
    rw [reverts_cons, List.append_eq_nil_iff] at hn
    rw [List.cons_append, stack, ih hn.1, applications_cons, List.reverse_append]
    rcases he : e.patchEnd? with _ | ⟨_ | _ | _, p, b⟩
    · simp [Event.applied?, he]
    · simp [Event.applied?, he]
    · cases b <;> simp [Event.applied?, he]
    · have hout : e.reverted? = some p := by rw [Event.reverted?, he]
      rw [hout] at hn
      cases hn.2

/-- As long as nothing goes in, what comes out was on top of the stack. -/
theorem stack_of_reverts (ho : Orderly patches (new ++ past)) (hn : applications new = []) :
    stack past = reverts new ++ stack (new ++ past) := by
  induction new with
  | nil => rfl
  | cons e new ih =>
    rw [applications_cons, List.append_eq_nil_iff] at hn
    have ih := ih ho.tail hn.1
    rw [List.cons_append, stack, reverts_cons, List.append_assoc]
    rcases he : e.patchEnd? with _ | ⟨_ | _ | _, p, b⟩
    · simpa [Event.reverted?, he] using ih
    · simpa [Event.reverted?, he] using ih
    · cases b with
      | false => simpa [Event.reverted?, he] using ih
      | true =>
        have hin : e.applied? = some p := by rw [Event.applied?, he]
        rw [hin] at hn
        cases hn.2
    · have top : (stack (new ++ past)).head? = some p := ho.2 _ _ (Event.patchStart?_of_end he)
      obtain ⟨ps, hps⟩ := List.head?_eq_some_iff.1 top
      rw [ih, hps]
      simp [Event.reverted?, he]

/-- What stands is the stack when the reverts go by the stack and succeed. -/
theorem standing_eq_stack {events : List Event} (ho : Orderly patches events)
    (hc : Clean events) : standing events = stack events := by
  induction events with
  | nil => rfl
  | cons e past ih =>
    obtain ⟨he, hc⟩ := clean_cons.1 hc
    have ih := ih ho.tail hc
    rcases hp : e.patchEnd? with _ | ⟨u, p, b⟩
    · rw [standing, stack, hp]
      exact ih
    · cases u with
      | trial =>
        rw [standing, stack, hp]
        exact ih
      | apply =>
        rw [standing, stack, hp, ih]
        cases b <;> rfl
      | revert =>
        have top : (stack past).head? = some p := ho.2 _ _ (Event.patchStart?_of_end hp)
        obtain ⟨ps, hps⟩ := List.head?_eq_some_iff.1 top
        cases b with
        | false => exact absurd hp (he p)
        | true =>
          rw [standing, stack, hp, ih, hps]
          simp

end Series

end Hotpatch
