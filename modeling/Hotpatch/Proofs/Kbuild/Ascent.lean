import Hotpatch.Proofs.Kbuild.Search

/-! A way up, with one rule for each thing that can happen on it. A property of all ways up needs an
argument for each rule, and none about how a search is put together. The first such property holds of
every resolver, whatever it knows: a way up notes nothing but choices for its own object. -/

namespace Hotpatch.Kbuild

/-- What a way up ends in by itself. -/
def isTop (path : String) : Bool := isModule path || isImagePart path

/-- The binary of a module or of something that is linked into the kernel image. -/
def binaryAt (source : String) (image : Binary) (top : String) : Binary :=
  if isModule top then ⟨under source top, false⟩ else image

namespace Resolver

variable {r : Resolver} {object : String}

/-- Whether a choice between parents was noted for an object. -/
def chosen (r : Resolver) (object : String) : Bool := (r.ambiguities.lookup object).isSome

/-- Goes on to the first of some parents; if there are others, this is noted. -/
def choose (r : Resolver) (object p : String) (ps : List String) : Resolver :=
  { r with ambiguities :=
      if ps = [] then r.ambiguities else addAmbiguity object (p :: ps) r.ambiguities }

/-- Keeps an owner that was found. -/
def keep (r : Resolver) (object : String) (b : Binary) : Resolver :=
  { r with known := (object, b) :: r.known }

theorem lookup_keep {x : String} {b c : Binary} (h : (r.keep object b).known.lookup x = some c) :
    (x = object ∧ c = b) ∨ r.known.lookup x = some c := by
  rw [keep, List.lookup_cons] at h
  cases hx : x == object with
  | true =>
    rw [hx] at h
    exact .inl ⟨eq_of_beq hx, (Option.some.inj h).symm⟩
  | false =>
    rw [hx] at h
    exact .inr h

theorem lookup_addAmbiguity (object x : String) (ps : List String)
    (as : List (String × List String)) :
    ((addAmbiguity object ps as).lookup x).isSome = ((as.lookup x).isSome || x == object) := by
  induction as with
  | nil => cases hx : x == object <;> simp [addAmbiguity, List.lookup_cons, hx]
  | cons a as ih =>
    obtain ⟨o, qs⟩ := a
    rw [addAmbiguity]
    cases hx : x == o with
    | true => split <;> simp [List.lookup_cons, hx]
    | false =>
      split
      · next ho => simp [List.lookup_cons, hx, ← ho]
      · simpa [List.lookup_cons, hx] using ih

theorem chosen_choose (x p : String) (ps : List String) :
    (r.choose object p ps).chosen x = (r.chosen x || (x == object && !ps.isEmpty)) := by
  rw [chosen, choose]
  cases ps with
  | nil => simp [chosen]
  | cons q qs => simp [lookup_addAmbiguity, chosen]

theorem isAmbiguous_eq (r : Resolver) (object : String) :
    r.isAmbiguous object = r.chosen (normalize object) := rfl

end Resolver

namespace Search

/-- A look for the parents of an object, from what is known before to what is known after. -/
def Looks (t : Tree) (r : Resolver) (object : String) (v : Except Fault (List String))
    (r' : Resolver) : Prop :=
  ∃ notes notes', parents object (t.disk, t.cwd) ⟨r, notes⟩ = (v, ⟨r', notes'⟩)

theorem looks_ends (t : Tree) (r : Resolver) (object : String) :
    Ends t r (parents object) (Looks t r object) := fun notes => ⟨notes, _, rfl⟩

theorem Looks.ends {t : Tree} {r r' : Resolver} {object : String}
    {P : Except Fault (List String) → Resolver → Prop}
    {v : Except Fault (List String)} (h : Looks t r object v r') (hP : Ends t r (parents object) P) :
    P v r' := by
  obtain ⟨notes, notes', heq⟩ := h
  have := hP notes
  rwa [heq] at this

/-- A search for the owner of an object on the way from `current`; it can take so many steps, and
`met` was passed before. -/
inductive Ascent (t : Tree) (object : String) :
    Nat → Resolver → List String → String → Except Fault Binary → Resolver → Prop
  | spent {r met current} : Ascent t object 0 r met current
      (.error (.failure (.unresolved object ("dependency cycle at " ++ current)))) r
  | top {n r met current} : isTop current = true →
      Ascent t object (n + 1) r met current (.ok (binaryAt r.source r.image current)) r
  | cycle {n r met current} : isTop current = false → current ∈ met →
      Ascent t object (n + 1) r met current
        (.error (.failure (.unresolved object ("dependency cycle at " ++ current)))) r
  | broken {n r met current e r'} : isTop current = false → current ∉ met →
      Looks t r current (.error e) r' → Ascent t object (n + 1) r met current (.error e) r'
  | lost {n r met current r'} : isTop current = false → current ∉ met →
      Looks t r current (.ok []) r' → Ascent t object (n + 1) r met current
        (.error (.failure (.unresolved object ("invalid ancestor " ++ current)))) r'
  | up {n r met current p ps r₁ v r'} : isTop current = false → current ∉ met →
      Looks t r current (.ok (p :: ps)) r₁ →
      Ascent t object n (r₁.choose object p ps) (current :: met) p v r' →
      Ascent t object (n + 1) r met current v r'

theorem climb_ascent (t : Tree) (object : String) (n : Nat) (r : Resolver) (met : List String)
    (current : String) :
    Ends t r (climb object n met current) (Ascent t object n r met current) := by
  induction n generalizing r met current with
  | zero => exact .throw .spent
  | succ n ih =>
    rw [climb]
    by_cases hmodule : isModule current = true
    · rw [if_pos hmodule]
      have htop := @Ascent.top t object n r met current (by simp [isTop, hmodule])
      rw [binaryAt, if_pos hmodule] at htop
      exact .resolver (.pure htop)
    rw [if_neg hmodule]
    by_cases hpart : isImagePart current = true
    · rw [if_pos hpart]
      have htop := @Ascent.top t object n r met current (by simp [isTop, hpart])
      rw [binaryAt, if_neg hmodule] at htop
      exact .resolver (.pure htop)
    have htop : isTop current = false := by simp [isTop, hmodule, hpart]
    rw [if_neg hpart]
    by_cases hmet : current ∈ met
    · rw [if_pos hmet]
      refine Ends.bind (P := fun v r' => v = .error _ ∧ r' = r) (.throw ⟨rfl, rfl⟩)
        (fun _ _ h => nomatch h.1) fun e r' ⟨he, hr⟩ => ?_
      cases he
      rw [hr]
      exact .cycle htop hmet
    rw [if_neg hmet]
    refine (looks_ends t r current).bind (fun ps r₁ hlook => ?_) fun e r' hlook =>
      .broken htop hmet hlook
    cases ps with
    | nil => exact .throw (.lost htop hmet hlook)
    | cons p ps =>
      have hgo := (ih (r₁.choose object p ps) (current :: met) p).imp
        fun v r' => Ascent.up htop hmet hlook
      dsimp only
      by_cases hps : ps = []
      · rw [if_neg (by simpa using hps)]
        rw [Resolver.choose, if_pos hps] at hgo
        exact hgo
      · rw [if_pos hps]
        rw [Resolver.choose, if_neg hps] at hgo
        exact .next (.note ⟨rfl, rfl⟩) (.next (.update ⟨rfl, rfl⟩) hgo)

/-- A call for the owner of an object by its path in normal form. -/
inductive Owned (t : Tree) (r : Resolver) (object : String) :
    Except Fault Binary → Resolver → Prop
  | outside {m} : r.outside = some m → Owned t r object (.ok m) r
  | known {b} : r.outside = none → r.known.lookup object = some b → Owned t r object (.ok b) r
  | found {b r'} : r.outside = none → r.known.lookup object = none →
      Ascent t object (height t.disk r) r [] object (.ok b) r' →
      Owned t r object (.ok b) (r'.keep object b)
  | failed {e r'} : r.outside = none → r.known.lookup object = none →
      Ascent t object (height t.disk r) r [] object (.error e) r' →
      Owned t r object (.error e) r'

theorem owner_owned (t : Tree) (r : Resolver) (object : String) :
    Ends t r (owner object) (Owned t r (normalize object)) := by
  unfold owner
  dsimp only
  generalize normalize object = object
  refine .resolver ?_
  rcases hout : r.outside with _ | m
  · dsimp only
    rcases hk : r.known.lookup object with _ | b
    · refine .read ((climb_ascent t object _ r [] object).bind (fun b r' hasc => ?_)
        fun e r' hasc => .failed hout hk hasc)
      exact .next (.note ⟨rfl, rfl⟩) (.next (.update ⟨rfl, rfl⟩) (.pure (.found hout hk hasc)))
    · exact .pure (.known hout hk)
  · exact .pure (.outside hout)

end Search

/-- Whether a fault says that there is no owner. -/
def isResolution : Fault → Bool
  | .failure (.unresolved _ _) => true
  | _ => false

/-- What a way up leaves as it was, and what it notes: nothing but choices for its own object. -/
structure Passed (r : Resolver) (object : String) (r' : Resolver) : Prop where
  source : r'.source = r.source
  image : r'.image = r.image
  outside : r'.outside = r.outside
  known : r'.known = r.known
  others : ∀ x, x ≠ object → r'.chosen x = r.chosen x

theorem Beside.chosen {r r' : Resolver} (h : Beside r r') (object : String) :
    r'.chosen object = r.chosen object := by
  rw [Resolver.chosen, Resolver.chosen, h.ambiguities]

theorem Beside.passed {r r' : Resolver} (h : Beside r r') (object : String) : Passed r object r' :=
  ⟨h.source, h.image, h.outside, h.known, fun x _ => h.chosen x⟩

/-- What was known before an owner was looked for is known after, with the choices noted for it. -/
theorem Passed.lookup {r r' : Resolver} {object x : String} {b : Binary} (h : Passed r object r')
    (hk : r.known.lookup object = none) (hx : r'.known.lookup x = some b) :
    r.known.lookup x = some b ∧ r'.chosen x = r.chosen x := by
  rw [h.known] at hx
  refine ⟨hx, h.others x ?_⟩
  rintro rfl
  rw [hk] at hx
  cases hx

/-- A choice for an object is noted for no other. -/
theorem Passed.step {r r₁ r' : Resolver} {object p : String} {ps : List String} (hb : Beside r r₁)
    (h : Passed (r₁.choose object p ps) object r') : Passed r object r' := by
  refine ⟨h.source.trans hb.source, h.image.trans hb.image, h.outside.trans hb.outside,
    h.known.trans hb.known, fun x hx => ?_⟩
  rw [h.others x hx, Resolver.chosen_choose, hb.chosen]
  simp [hx]

namespace Search

variable {α : Type} {t : Tree} {r : Resolver}

variable {r' : Resolver} {object current : String} {n : Nat} {met : List String}
  {v : Except Fault Binary}

theorem Ascent.passed (h : Ascent t object n r met current v r') : Passed r object r' := by
  induction h with
  | spent | top | cycle => exact (Beside.refl _).passed object
  | broken _ _ hlook | lost _ _ hlook =>
    exact ((hlook.ends (parents_glance t _ _)).beside).passed object
  | up _ _ hlook _ ih => exact .step (hlook.ends (parents_glance t _ _)).beside ih

/-- A way up fails because there is no owner, or because something can't be read. -/
theorem Ascent.fails (h : Ascent t object n r met current v r') {e : Fault} (hv : v = .error e) :
    isResolution e = true ∨ ∃ e', e = .ofDisk e' := by
  induction h with
  | spent | cycle | lost =>
    cases hv
    exact .inl rfl
  | top => cases hv
  | broken _ _ hlook =>
    cases hv
    exact .inr ((hlook.ends (parents_glance t _ _)).broken _ rfl)
  | up _ _ _ _ ih => exact ih hv

/-- A call for an owner, whatever the resolver knows: no choice is noted for another object, and it
fails only because there is no owner, or because something can't be read. -/
theorem owner_frame (t : Tree) (r : Resolver) (object : String) :
    Ends t r (owner object) fun v r' => (∀ x, x ≠ normalize object → r'.chosen x = r.chosen x) ∧
      ∀ e, v = .error e → isResolution e = true ∨ ∃ e', e = .ofDisk e' := by
  refine (owner_owned t r object).imp fun v r' howned => ?_
  cases howned with
  | outside | known => exact ⟨fun _ _ => rfl, nofun⟩
  | found _ _ hasc => exact ⟨hasc.passed.others, nofun⟩
  | failed _ _ hasc => exact ⟨hasc.passed.others, fun e he => hasc.fails he⟩

end Search

end Hotpatch.Kbuild
