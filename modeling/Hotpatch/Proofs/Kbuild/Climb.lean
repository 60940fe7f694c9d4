import Hotpatch.Proofs.Kbuild.Ascent

/-! The way from an object up to its binary. The tree alone tells it for an object all of whose
ancestors are recorded clearly, and a resolver that knows rightly goes this way. -/

namespace Hotpatch.Kbuild

namespace Tree

/-- The objects that are met on the way up from an object by the parents that a fresh resolver
finds. -/
inductive Way (t : Tree) : String → String → Prop where
  | here (object : String) : Way t object object
  | up {object n p : String} {ps : List String} :
    Way t object n → isTop n = false → t.look n = .ok (p :: ps) → Way t object p

/-- All objects on the way up whose parents are looked for have clear ones. -/
def Settled (t : Tree) (object : String) : Prop :=
  ∀ n, t.Way object n → isTop n = false → t.Clear n

/-- Where the way goes on from an object, and whether there was a choice, or how it ends there. -/
def turn (t : Tree) (image : Binary) (object : String) (met : List String) (current : String) :
    Except Fault Binary ⊕ String × Bool :=
  if isTop current then .inl (.ok (binaryAt t.source image current))
  else if current ∈ met then
    .inl (.error (.failure (.unresolved object ("dependency cycle at " ++ current))))
  else match t.look current with
    | .error e => .inl (.error e)
    | .ok [] => .inl (.error (.failure (.unresolved object ("invalid ancestor " ++ current))))
    | .ok (p :: ps) => .inr (p, !ps.isEmpty)

/-- The binary that the way up ends in, and whether there was a choice on it. -/
def rise (t : Tree) (image : Binary) (object : String) :
    Nat → List String → String → Except Fault Binary × Bool
  | 0, _, current =>
    (.error (.failure (.unresolved object ("dependency cycle at " ++ current))), false)
  | n + 1, met, current =>
    match t.turn image object met current with
    | .inl v => (v, false)
    | .inr (p, choice) =>
      let r := t.rise image object n (current :: met) p
      (r.1, r.2 || choice)

section Turn

variable {t : Tree} {image : Binary} {object current : String} {met : List String} {n : Nat}

theorem rise_end {v : Except Fault Binary} (h : t.turn image object met current = .inl v) :
    t.rise image object (n + 1) met current = (v, false) := by
  rw [rise, h]

theorem rise_on {p : String} {choice : Bool}
    (h : t.turn image object met current = .inr (p, choice)) :
    t.rise image object (n + 1) met current =
      ((t.rise image object n (current :: met) p).1,
        (t.rise image object n (current :: met) p).2 || choice) := by
  rw [rise, h]

theorem turn_look (t : Tree) (image : Binary) (object : String) (htop : isTop current = false)
    (hmet : current ∉ met) :
    t.turn image object met current = match t.look current with
      | .error e => .inl (.error e)
      | .ok [] => .inl (.error (.failure (.unresolved object ("invalid ancestor " ++ current))))
      | .ok (p :: ps) => .inr (p, !ps.isEmpty) := by
  rw [turn, if_neg (by simp [htop]), if_neg hmet]

theorem turn_on {p : String} {choice : Bool}
    (h : t.turn image object met current = .inr (p, choice)) :
    current ∉ met ∧ ∃ ps, t.look current = .ok (p :: ps) := by
  unfold turn at h
  split at h
  · cases h
  · split at h
    · cases h
    · next hmet =>
      split at h
      · cases h
      · cases h
      · next q qs hl =>
        cases h
        exact ⟨hmet, qs, hl⟩

end Turn

variable {t : Tree} {object p : String} {ps : List String}

theorem Way.after (ht : isTop object = false) (hl : t.look object = .ok (p :: ps)) {n : String}
    (h : t.Way p n) : t.Way object n := by
  induction h with
  | here => exact .up (.here object) ht hl
  | up _ ht' hl' ih => exact .up ih ht' hl'

theorem Settled.up (h : t.Settled object) (ht : isTop object = false)
    (hl : t.look object = .ok (p :: ps)) : t.Settled p :=
  fun n hn => h n (hn.after ht hl)

end Tree

/-- Whether a call told what it was asked for, or that there is no such thing. -/
def isAnswer {α : Type} : Except Fault α → Bool
  | .ok _ => true
  | .error e => isResolution e

theorem isAnswer_ofDisk {α : Type} (e : DiskError) :
    isAnswer (.error (.ofDisk e) : Except Fault α) = false := by
  cases e with
  | failed why path => cases why <;> rfl
  | _ => rfl

theorem Search.Glance.answered {α : Type} {t : Tree} {r r' : Resolver} {v : Except Fault α}
    (h : Search.Glance r v r') (hs : ∀ a, v = .ok a → Steady t r') (hv : isAnswer v = true) :
    Steady t r' := by
  cases v with
  | ok a => exact hs a rfl
  | error e =>
    obtain ⟨e', rfl⟩ := h.broken e rfl
    rw [isAnswer_ofDisk] at hv
    cases hv

/-- How a way up from `current` ends for a resolver that knows rightly. -/
structure Climbed (t : Tree) (r : Resolver) (object current : String)
    (want : Except Fault Binary × Bool) (v : Except Fault Binary) (r' : Resolver) : Prop where
  steady : isAnswer v = true → Steady t r'
  agrees : t.Settled current → v = want.1 ∧ r'.chosen object = (r.chosen object || want.2)

section Height

variable {t : Tree} {object : String}

/-- The targets of all records. -/
def Tree.targets (t : Tree) : List String :=
  t.disk.nodes.map fun q => (target? t.cwd q.1.text (clean t.source)).getD ""

theorem target_of_node (ht : t.IsProper) {taken : String → Bool} {dir : String} {e : Edge}
    (htaken : ∀ n, taken n = true → Contribution.isRecordName n = true)
    (he : e ∈ (Contribution.ofDirectory taken t.disk t.cwd (clean t.source) dir).edges) :
    e.target ∈ t.targets := by
  obtain ⟨q, hq, he⟩ := edge_of_node ht.disk ht.cwd (isAbsolute_clean ht.source) htaken he
  obtain ⟨target, text, htarget, -, -, he⟩ := Contribution.edge_of_record he
  refine List.mem_map.2 ⟨q, hq, ?_⟩
  rw [htarget, Contribution.made_target he]
  rfl

theorem look_targets (ht : t.IsProper) {ps : List String} (hl : t.look object = .ok ps) :
    ∀ p ∈ ps, p ∈ t.targets := by
  have hin : ∀ dir, ∀ p ∈ t.parentsIn dir object, p ∈ t.targets := by
    intro dir p hp
    have he := Index.mem_parents.1 (List.mem_filter.1 hp).1
    rw [t.alone_edges, Index.mem_added] at he
    exact target_of_node ht (fun _ => Contribution.isRecordName_of_full)
      (he.resolve_right List.not_mem_nil)
  have hall : ∀ p ∈ t.parentsAll object, p ∈ t.targets := by
    intro p hp
    obtain ⟨dir, -, he⟩ := whole_edges (Index.mem_parents.1 hp)
    exact target_of_node ht (fun _ h => h) he
  rcases hv : t.lookIn (dirname object) object with e | qs
  · rw [Tree.look_error hv] at hl
    cases hl
  · cases qs with
    | nil =>
      rw [Tree.look_nil hv] at hl
      exact (Search.ended_ok hl).2 ▸ hall
    | cons q qs =>
      rw [Tree.look_cons hv] at hl
      rw [← Except.ok.inj hl, ← (Search.ended_ok hv).2]
      exact hin _

/-- A way up that is given enough steps: those passed are all different, and each is the object or the
target of a record. -/
structure Ample (t : Tree) (object : String) (n : Nat) (met : List String) (current : String) :
    Prop where
  fresh : met.Nodup
  passed : met ⊆ object :: t.targets
  here : current ∈ object :: t.targets
  steps : t.targets.length + 1 < n + met.length

section Ample

variable {n n' : Nat} {met : List String} {current p : String}

theorem Ample.pos (h : Ample t object n met current) : n ≠ 0 := by
  have hle := h.fresh.length_le_of_subset h.passed
  rw [List.length_cons] at hle
  have := h.steps
  omega

theorem Ample.up (h : Ample t object (n + 1) met current) (hmet : current ∉ met)
    (hp : p ∈ t.targets) : Ample t object n (current :: met) p := by
  refine ⟨List.nodup_cons.2 ⟨hmet, h.fresh⟩, List.cons_subset.2 ⟨h.here, h.passed⟩,
    List.mem_cons_of_mem _ hp, ?_⟩
  have := h.steps
  rw [List.length_cons]
  omega

theorem ample_start (t : Tree) (object : String) :
    Ample t object (t.targets.length + 2) [] object := by
  refine ⟨List.nodup_nil, List.nil_subset _, List.mem_cons_self, ?_⟩
  rw [List.length_nil]
  omega

theorem ample_height (t : Tree) (r : Resolver) (object : String) :
    Ample t object (Search.height t.disk r) [] object := by
  refine ⟨List.nodup_nil, List.nil_subset _, List.mem_cons_self, ?_⟩
  have hlen : t.targets.length = t.disk.nodes.length := List.length_map _
  rw [hlen, Search.height, List.length_nil]
  omega

/-- Two ways that are both given enough steps are the same. -/
theorem rise_enough (ht : t.IsProper) (image : Binary) (h : Ample t object n met current)
    (h' : Ample t object n' met current) :
    t.rise image object n met current = t.rise image object n' met current := by
  induction n generalizing n' met current with
  | zero => exact absurd rfl h.pos
  | succ n ih =>
    cases n' with
    | zero => exact absurd rfl h'.pos
    | succ n' =>
      rcases hturn : t.turn image object met current with v | ⟨p, choice⟩
      · rw [Tree.rise_end hturn, Tree.rise_end hturn]
      · obtain ⟨hfresh, ps, hlook⟩ := Tree.turn_on hturn
        have hp : p ∈ t.targets := look_targets ht hlook p List.mem_cons_self
        rw [Tree.rise_on hturn, Tree.rise_on hturn, ih (h.up hfresh hp) (h'.up hfresh hp)]

end Ample

end Height

section Climb

variable {t : Tree} {r : Resolver} {object current : String}

/-- A way that ends where it stands. -/
theorem Climbed.stop {r' : Resolver} {want : Except Fault Binary × Bool} {v : Except Fault Binary}
    (hb : Beside r r') (hs : isAnswer v = true → Steady t r')
    (hw : t.Settled current → want = (v, false)) : Climbed t r object current want v r' := by
  refine ⟨hs, fun h => ?_⟩
  rw [hw h, hb.chosen]
  exact ⟨rfl, (Bool.or_false _).symm⟩

theorem Climbed.stay {want : Except Fault Binary × Bool} {v : Except Fault Binary}
    (h : Steady t r) (hw : want = (v, false)) : Climbed t r object current want v r :=
  .stop (.refl r) (fun _ => h) fun _ => hw

theorem Steady.choose (h : Steady t r) (object p : String) (ps : List String) :
    Steady t (r.choose object p ps) :=
  ⟨h.source, h.near, h.tree, h.last⟩

theorem Steady.keep (h : Steady t r) (object : String) (b : Binary) : Steady t (r.keep object b) :=
  ⟨h.source, h.near, h.tree, h.last⟩

/-- A way that goes on after parents were found. -/
theorem Climbed.step {r₁ r' : Resolver} {p : String} {ps : List String}
    {v : Except Fault Binary} {want want' : Except Fault Binary × Bool} (hb : Beside r r₁)
    (ht : isTop current = false) (hl : t.Settled current → t.look current = .ok (p :: ps))
    (hw : t.Settled current → want = (want'.1, want'.2 || !ps.isEmpty))
    (h : Climbed t (r₁.choose object p ps) object p want' v r') :
    Climbed t r object current want v r' := by
  refine ⟨h.steady, fun hs => ?_⟩
  obtain ⟨hv, hc⟩ := h.agrees (hs.up ht (hl hs))
  rw [hw hs]
  refine ⟨hv, ?_⟩
  rw [hc, Resolver.chosen_choose, hb.chosen]
  simp [Bool.or_assoc, Bool.or_comm]

/-- A way up is what it should be, step by step. -/
theorem Search.Ascent.climbed {n : Nat} {met : List String} {v : Except Fault Binary} {r' : Resolver}
    (ht : t.IsProper) (h : Search.Ascent t object n r met current v r') (hr : Steady t r) :
    Climbed t r object current (t.rise r.image object n met current) v r' := by
  induction h with
  | spent => exact .stay hr rfl
  | top htop =>
    refine .stay hr (Tree.rise_end ?_)
    rw [Tree.turn, if_pos htop, hr.source]
  | cycle htop hmet =>
    refine .stay hr (Tree.rise_end ?_)
    rw [Tree.turn, if_neg (by simp [htop]), if_pos hmet]
  | @broken n r met current e r' htop hmet hlook =>
    have hf := hlook.ends (Search.parents_ends ht hr current)
    have hg := hlook.ends (Search.parents_glance t r current)
    refine .stop hg.beside (hg.off.answered nofun) fun hs => Tree.rise_end ?_
    rw [t.turn_look r.image object htop hmet, ← hf.found (hs current (.here current) htop)]
  | @lost n r met current r' htop hmet hlook =>
    have hf := hlook.ends (Search.parents_ends ht hr current)
    have hg := hlook.ends (Search.parents_glance t r current)
    refine .stop hg.beside (fun _ => hf.steady _ rfl) fun hs => Tree.rise_end ?_
    rw [t.turn_look r.image object htop hmet, ← hf.found (hs current (.here current) htop)]
  | @up n r met current p ps r₁ v r' htop hmet hlook _ ih =>
    have hf := hlook.ends (Search.parents_ends ht hr current)
    have hg := hlook.ends (Search.parents_glance t r current)
    have hfound : t.Settled current → t.look current = .ok (p :: ps) :=
      fun hs => (hf.found (hs current (.here current) htop)).symm
    have hrest := ih ((hf.steady _ rfl).choose object p ps)
    rw [show (r₁.choose object p ps).image = r.image from hg.beside.image] at hrest
    refine .step hg.beside htop hfound (fun hs => Tree.rise_on ?_) hrest
    rw [t.turn_look r.image object htop hmet, hfound hs]

end Climb

end Hotpatch.Kbuild
