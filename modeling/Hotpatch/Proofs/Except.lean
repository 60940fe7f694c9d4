/-! What a computation that may be refused says of its parts, from what it came to. -/

namespace Hotpatch

variable {ε α β : Type}

theorem exists_of_bind {x : Except ε α} {f : α → Except ε β} {b : β} (hb : x >>= f = .ok b) :
    ∃ v, x = .ok v ∧ f v = .ok b := by
  cases x with
  | error e => cases hb
  | ok v => exact ⟨v, rfl, hb⟩

/-- A refusal is that of the first part, or of what comes behind it. -/
theorem error_of_bind {x : Except ε α} {f : α → Except ε β} {e : ε} (hb : x >>= f = .error e) :
    x = .error e ∨ ∃ v, x = .ok v ∧ f v = .error e := by
  cases x with
  | error e' => exact .inl (congrArg _ (Except.error.inj hb))
  | ok v => exact .inr ⟨v, rfl, hb⟩

theorem exists_of_map {x : Except ε α} {f : α → β} {b : β} (hb : x.map f = .ok b) :
    ∃ v, x = .ok v ∧ f v = b := by
  cases x with
  | error e => cases hb
  | ok v => exact ⟨v, rfl, Except.ok.inj hb⟩

theorem ok_of_toOption {x : Except ε α} {a : α} (hx : x.toOption = some a) : x = .ok a := by
  cases x with
  | error e => cases hx
  | ok b => exact congrArg Except.ok (Option.some.inj hx)

theorem ok_of_isSome {x : Except ε α} (hx : x.toOption.isSome = true) : ∃ a, x = .ok a :=
  (Option.isSome_iff_exists.1 hx).imp fun _ => ok_of_toOption

theorem mapM_ok {f : α → Except ε β} {g : α → β} {as : List α} (hf : ∀ a ∈ as, f a = .ok (g a)) :
    as.mapM f = .ok (as.map g) := by
  induction as with
  | nil => rfl
  | cons a as ih =>
    rw [List.mapM_cons, hf a List.mem_cons_self, ih fun b hb => hf b (List.mem_cons_of_mem a hb)]
    rfl

/-- What a list is refused with, one of its items is refused with. -/
theorem error_of_mapM {f : α → Except ε β} {E : ε → Prop} (hf : ∀ a e, f a = .error e → E e)
    {as : List α} {e : ε} (he : as.mapM f = .error e) : E e := by
  induction as with
  | nil => cases he
  | cons a as ih =>
    rw [List.mapM_cons] at he
    obtain he | ⟨b, -, he⟩ := error_of_bind he
    · exact hf a e he
    obtain he | ⟨bs, -, he⟩ := error_of_bind he
    · exact ih he
    · cases he

end Hotpatch
