import Hotpatch.Proofs.Robust

/-! What logging leaves of the file tree. Log files grow, and that is all: what leads where stays, what is
a directory stays one, and every other file has its content. -/

namespace Hotpatch

open Act

namespace Disk

variable {d d' : Disk} {cwd p : Place} {s : String} {P : Place → Prop}

/-- A tree like another one, where files at the places of `P` may have other contents. -/
structure Grown (P : Place → Prop) (d d' : Disk) : Prop where
  dir : ∀ q, d'.isDirAt q = d.isDirAt q
  stands : ∀ q, (d'.node? q).isSome = (d.node? q).isSome
  same : ∀ q, ¬ P q → d'.node? q = d.node? q

theorem Grown.refl (P : Place → Prop) (d : Disk) : Grown P d d :=
  ⟨fun _ => rfl, fun _ => rfl, fun _ _ => rfl⟩

theorem stands_append (d : Disk) (p q : Place) (serial : Nat) (c : Bytes) :
    ((d.append p serial c).node? q).isSome = (d.node? q).isSome := by
  rcases append_cases d p serial c with ha | ⟨f, hf, ha⟩
  · rw [ha]
  · rw [ha]
    by_cases hq : q = p
    · subst hq
      have hne : q ≠ [] := by
        rintro rfl
        rw [file?_eq_some, node?_nil] at hf
        cases hf
      obtain ⟨k, hk⟩ := node?_store (d := d) (c := f.content ++ c) (t := d.clock) hne
      rw [hk, file?_eq_some.1 hf]
      rfl
    · rw [node?_store_ne hq]

theorem Grown.append (hg : Grown P d d') (hp : P p) (serial : Nat) (c : Bytes) :
    Grown P d (d'.append p serial c) := by
  refine ⟨fun q => ?_, fun q => ?_, fun q hq => ?_⟩
  · rw [isDirAt_append, hg.dir]
  · rw [stands_append, hg.stands]
  · have hne : q ≠ p := by
      rintro rfl
      exact hq hp
    rw [node?_append_ne d' serial c hne, hg.same q hq]

/-- One step on a path depends only on what is a directory and what is there at all. -/
theorem Grown.step (hg : Grown P d d') (here : Place) (name : String) :
    d'.step here name = d.step here name := by
  have hdir := hg.dir here
  have hstands := hg.stands here
  unfold Disk.step
  rcases hn : d.node? here with _ | _ | f <;> rcases hn' : d'.node? here with _ | _ | f' <;>
    simp_all [isDirAt]

theorem Grown.locate (hg : Grown P d d') : d'.locate cwd s = d.locate cwd s := by
  have hstep : d'.step = d.step := by
    funext here name
    exact hg.step here name
  simp only [Disk.locate, Disk.reach, hstep]

/-- Apart from log files everything is found as it was. -/
theorem Grown.find (hg : Grown P d d') (hs : ¬ P (Place.of cwd s)) :
    d'.find cwd s = d.find cwd s := by
  unfold Disk.find
  rw [hg.locate]
  rcases hl : d.locate cwd s with e | p
  · rfl
  · obtain rfl := locate_of hl
    simp only [bind, Except.bind, hg.same _ hs]

theorem Grown.read (hg : Grown P d d') (hs : ¬ P (Place.of cwd s)) :
    d'.read cwd s = d.read cwd s := by
  unfold Disk.read Disk.open?
  rw [hg.find hs]

/-- Nothing comes into being, and nothing goes. -/
theorem Grown.look? (hg : Grown P d d') :
    (d'.look? cwd s).map Option.isSome = (d.look? cwd s).map Option.isSome := by
  unfold Disk.look? Disk.find
  rw [hg.locate]
  rcases hl : d.locate cwd s with e | p
  · rfl
  · have hstands := hg.stands p
    simp only [bind, Except.bind]
    rcases hn : d.node? p with _ | n <;> rcases hn' : d'.node? p with _ | n' <;> simp_all
    rfl

end Disk

/-- The places of the log files. -/
def Site.logs (t : Site) (p : Place) : Prop := ∃ n, .file p n ∈ t.sinks

/-- Since `t` nothing but the log was written. -/
structure Logged (t u : Site) : Prop where
  sinks : u.sinks = t.sinks
  disk : Disk.Grown t.logs t.disk u.disk

theorem Logged.refl (t : Site) : Logged t t := ⟨rfl, .refl _ _⟩

variable {h : Host} {t u : Site} {s : String}

end Hotpatch
