import Hotpatch.Kbuild.Owner
import Hotpatch.Proofs.Kbuild.Whole

/-! What one look for the parents of an object finds. A resolver that knows rightly finds what a
fresh one would find, as long as the object's parents are recorded clearly, and goes on knowing
rightly; it only forgets that something could not be read to its end. -/

namespace Hotpatch.Kbuild

/-- What a resolver holds of a tree is what stands there. -/
structure Steady (t : Tree) (r : Resolver) : Prop where
  source : r.source = t.source
  near : Near t r.near
  tree : ∀ i, r.tree = some i → i = t.whole.index ∧ t.whole.stop = none
  last : ∀ dir, r.lastBroadDir = some dir →
    t.whole.stop = none ∧ ∃ o p, t.parentsAll o = [p] ∧ dir = dirname p

/-- What answers are given by stays as it was; what was read may have changed. -/
structure Beside (r r' : Resolver) : Prop where
  source : r'.source = r.source
  image : r'.image = r.image
  outside : r'.outside = r.outside
  ambiguities : r'.ambiguities = r.ambiguities
  known : r'.known = r.known

theorem Beside.refl (r : Resolver) : Beside r r := ⟨rfl, rfl, rfl, rfl, rfl⟩

theorem Beside.trans {a b c : Resolver} (h : Beside a b) (h' : Beside b c) : Beside a c :=
  ⟨h'.source.trans h.source, h'.image.trans h.image, h'.outside.trans h.outside,
    h'.ambiguities.trans h.ambiguities, h'.known.trans h.known⟩

namespace Search

variable {α β : Type} {t : Tree} {r : Resolver}

/-- Where a search ends that starts from a resolver, whatever was noted before. -/
def Ends (t : Tree) (r : Resolver) (s : Search α) (P : Except Fault α → Resolver → Prop) : Prop :=
  ∀ notes, P (s (t.disk, t.cwd) ⟨r, notes⟩).1 (s (t.disk, t.cwd) ⟨r, notes⟩).2.resolver

section Rules

variable {P Q : Except Fault α → Resolver → Prop}

theorem Ends.imp {s : Search α} (hs : Ends t r s P) (h : ∀ v r', P v r' → Q v r') : Ends t r s Q :=
  fun notes => h _ _ (hs notes)

theorem Ends.and {s : Search α} (hs : Ends t r s P) (hs' : Ends t r s Q) :
    Ends t r s fun v r' => P v r' ∧ Q v r' := fun notes => ⟨hs notes, hs' notes⟩

theorem Ends.bind {s : Search α} {f : α → Search β} {Q : Except Fault β → Resolver → Prop}
    (hs : Ends t r s P) (hf : ∀ a r', P (.ok a) r' → Ends t r' (f a) Q)
    (he : ∀ e r', P (.error e) r' → Q (.error e) r') : Ends t r (s >>= f) Q := by
  intro notes
  have hP := hs notes
  rcases hrun : s (t.disk, t.cwd) ⟨r, notes⟩ with ⟨v, r', notes'⟩
  rw [hrun] at hP
  cases v with
  | ok a =>
    have hbind : (s >>= f) (t.disk, t.cwd) ⟨r, notes⟩ = f a (t.disk, t.cwd) ⟨r', notes'⟩ := by
      simp only [Bind.bind, ReaderT.bind, ExceptT.bind, ExceptT.mk, StateT.bind, hrun]
      rfl
    rw [hbind]
    exact hf a r' hP notes'
  | error e =>
    have hbind : (s >>= f) (t.disk, t.cwd) ⟨r, notes⟩ = (.error e, ⟨r', notes'⟩) := by
      simp only [Bind.bind, ReaderT.bind, ExceptT.bind, ExceptT.mk, StateT.bind, hrun]
      rfl
    rw [hbind]
    exact he e r' hP

theorem Ends.pure {a : α} (h : P (.ok a) r) : Ends t r (Pure.pure a) P := fun _ => h

theorem Ends.throw {e : Fault} (h : P (.error e) r) : Ends t r (MonadExcept.throw e) P := fun _ => h

end Rules

variable {P : Except Fault Unit → Resolver → Prop}

theorem Ends.note {level : Log.Level} {text : String} (h : P (.ok ()) r) :
    Ends t r (note level text) P := fun _ => h

theorem Ends.notes {level : Log.Level} {texts : List String} (h : P (.ok ()) r) :
    Ends t r (texts.forM (Search.note level)) P := by
  induction texts with
  | nil => exact .pure h
  | cons text texts ih =>
    show Ends t r (Search.note level text >>= fun _ => texts.forM (Search.note level)) P
    exact Ends.bind (P := fun v r' => v = .ok () ∧ r' = r) (.note ⟨rfl, rfl⟩)
      (fun _ _ h => h.2 ▸ ih) (fun _ _ h => nomatch h.1)

theorem Ends.update {f : Resolver → Resolver} (h : P (.ok ()) (f r)) : Ends t r (update f) P :=
  fun _ => h

/-- Asking what is known, or which tree it is. -/
theorem Ends.resolver {Q : Except Fault β → Resolver → Prop} {f : Resolver → Search β}
    (h : Ends t r (f r) Q) : Ends t r (Search.resolver >>= f) Q := h

theorem Ends.read {Q : Except Fault β → Resolver → Prop} {f : Disk × Place → Search β}
    (h : Ends t r (f (t.disk, t.cwd)) Q) : Ends t r (MonadReader.read >>= f) Q := h

/-- Steps that can't fail. -/
theorem Ends.next {Q : Except Fault β → Resolver → Prop} {s : Search Unit} {f : Unit → Search β}
    {r' : Resolver} (hs : Ends t r s fun v x => v = .ok () ∧ x = r') (hf : Ends t r' (f ()) Q) :
    Ends t r (s >>= f) Q :=
  hs.bind (fun _ _ h => h.2 ▸ hf) fun _ _ h => nomatch h.1

/-- A search that was broken off, or what it found. -/
def ended (stop : Option DiskError) (a : α) : Except Fault α :=
  match stop with
  | some e => .error (.ofDisk e)
  | none => .ok a

theorem ended_ok {stop : Option DiskError} {a b : α} (h : ended stop a = .ok b) :
    stop = none ∧ a = b := by
  cases stop with
  | some e => cases h
  | none => exact ⟨rfl, Except.ok.inj h⟩

theorem Ends.goOn {stop : Option DiskError} (h : P (ended stop ()) r) : Ends t r (goOn stop) P := by
  cases stop with
  | some e => exact .throw h
  | none => exact .pure h

/-- How a look at the tree ends: answers are given as before, and only what can't be read breaks the
look off. -/
structure Glance (r : Resolver) (v : Except Fault α) (r' : Resolver) : Prop where
  beside : Beside r r'
  broken : ∀ e, v = .error e → ∃ e', e = .ofDisk e'

theorem Glance.ok {r' : Resolver} (hb : Beside r r') (a : α) : Glance r (.ok a) r' := ⟨hb, nofun⟩

theorem Glance.off {β : Type} {r' : Resolver} {e : Fault}
    (h : Glance r (.error e : Except Fault α) r') : Glance r (.error e : Except Fault β) r' :=
  ⟨h.beside, fun _ he => Except.error.inj he ▸ h.broken e rfl⟩

theorem Glance.after {r₁ r' : Resolver} {v : Except Fault α} (hb : Beside r r₁)
    (h : Glance r₁ v r') : Glance r v r' :=
  ⟨hb.trans h.beside, h.broken⟩

theorem goOn_glance (t : Tree) (r : Resolver) (stop : Option DiskError) :
    Ends t r (goOn stop) (Glance r) := by
  cases stop with
  | none => exact .pure (.ok (.refl r) _)
  | some e => exact .throw ⟨.refl r, fun _ he => ⟨e, (Except.error.inj he).symm⟩⟩

theorem lookNear_glance (t : Tree) (r : Resolver) (dir : String) :
    Ends t r (lookNear dir) (Glance r) := by
  refine .read (.resolver ?_)
  dsimp only
  generalize r.near.addDirectory t.disk t.cwd dir = g
  refine .next (.notes ⟨rfl, rfl⟩) (.next (.update ⟨rfl, rfl⟩) ?_)
  exact (goOn_glance t { r with near := g.index } g.stop).imp fun _ _ =>
    .after ⟨rfl, rfl, rfl, rfl, rfl⟩

theorem parentsIn_glance (t : Tree) (r : Resolver) (dir object : String) :
    Ends t r (parentsIn dir object) (Glance r) :=
  (lookNear_glance t r dir).bind (fun _ _ h => .resolver (.pure (.ok h.beside _))) fun _ _ h => h.off

theorem wholeTree_glance (t : Tree) (r : Resolver) (object : String) :
    Ends t r (wholeTree object) (Glance r) := by
  refine .resolver ?_
  rcases r.tree with _ | i
  · refine .read (.next (.note ⟨rfl, rfl⟩) ?_)
    dsimp only
    generalize (Index.empty r.source).addTree t.disk t.cwd = g
    refine .next (.update ⟨rfl, rfl⟩) ?_
    have hb : Beside r { r with tree := some g.index } := ⟨rfl, rfl, rfl, rfl, rfl⟩
    refine (goOn_glance t _ g.stop).bind (fun _ r' h => ?_) fun _ _ h => (h.after hb).off
    exact .next (.note ⟨rfl, rfl⟩) (.pure (.ok (hb.trans h.beside) _))
  · exact .pure (.ok (.refl r) _)

theorem treeParents_glance (t : Tree) (r : Resolver) (object : String) :
    Ends t r (treeParents object) (Glance r) := by
  refine (wholeTree_glance t r object).bind (fun i r' h => ?_) fun _ _ h => h.off
  dsimp only
  generalize i.parents object = ps
  rcases ps with _ | ⟨p, _ | ⟨q, qs⟩⟩
  · exact .pure (.ok h.beside _)
  · refine .next (.update ⟨rfl, rfl⟩) (.pure (.ok ?_ _))
    exact h.beside.trans ⟨rfl, rfl, rfl, rfl, rfl⟩
  · exact .pure (.ok h.beside _)

theorem broadParents_glance (t : Tree) (r : Resolver) (object : String) :
    Ends t r (broadParents object) (Glance r) := by
  refine .resolver ?_
  rcases r.lastBroadDir with _ | dir
  · exact treeParents_glance t r object
  · refine (parentsIn_glance t r dir object).bind (fun ps r' h => ?_) fun _ _ h => h.off
    cases ps with
    | nil => exact (treeParents_glance t r' object).imp fun _ _ => .after h.beside
    | cons p ps => exact .pure (.ok h.beside _)

theorem parents_glance (t : Tree) (r : Resolver) (object : String) :
    Ends t r (parents object) (Glance r) := by
  refine (parentsIn_glance t r (dirname object) object).bind (fun ps r' h => ?_) fun _ _ h => h.off
  cases ps with
  | nil => exact (broadParents_glance t r' object).imp fun _ _ => .after h.beside
  | cons p ps => exact .pure (.ok h.beside _)

/-- How a search ends that knows rightly: what it finds is what it should, where this can be told. -/
structure Found (t : Tree) (clear : Prop) (want v : Except Fault α) (r' : Resolver) : Prop where
  steady : ∀ a, v = .ok a → Steady t r'
  found : clear → v = want

theorem Found.off {clear : Prop} {want : Except Fault α} {r' : Resolver} {e : Fault}
    (h : clear → .error e = want) : Found t clear want (.error e) r' := ⟨nofun, h⟩

end Search

namespace Tree

open Search

/-- The parents that a directory holds, if it can be read. -/
def lookIn (t : Tree) (dir object : String) : Except Fault (List String) :=
  ended (t.said (normalize dir)).stop (t.parentsIn dir object)

/-- The parents that are anywhere, if everything can be read. -/
def lookAll (t : Tree) (object : String) : Except Fault (List String) :=
  ended t.whole.stop (t.parentsAll object)

/-- The parents that a fresh resolver finds. -/
def look (t : Tree) (object : String) : Except Fault (List String) :=
  match t.lookIn (dirname object) object with
  | .ok [] => t.lookAll object
  | v => v

section Look

variable {t : Tree} {object : String}

theorem look_nil (h : t.lookIn (dirname object) object = .ok []) :
    t.look object = t.lookAll object := by
  unfold look
  rw [h]

theorem look_cons {p : String} {ps : List String}
    (h : t.lookIn (dirname object) object = .ok (p :: ps)) : t.look object = .ok (p :: ps) := by
  unfold look
  rw [h]

theorem look_error {e : Fault} (h : t.lookIn (dirname object) object = .error e) :
    t.look object = .error e := by
  unfold look
  rw [h]

end Look

/-- Where another object has its only parent there are all parents of this one, or none. -/
def Together (t : Tree) (object : String) : Prop :=
  ∀ o p, t.parentsAll o = [p] → t.parentsIn (dirname p) object = [] ∨
    t.parentsIn (dirname p) object = t.parentsAll object

/-- The parents of an object can be told from the tree: the records that list it stand where their
targets are, and those outside its own directory are not torn apart. -/
structure Clear (t : Tree) (object : String) : Prop where
  home : t.Home object
  together : t.parentsIn (dirname object) object = [] → t.Together object

end Tree

namespace Search

theorem lookNear_ends (h : Steady t r) (dir : String) :
    Ends t r (lookNear dir) fun v r' =>
      ((t.said (normalize dir)).stop = none → v = .ok () ∧ Steady t r' ∧
        normalize dir ∈ r'.near.dirs) ∧
      ∀ e, (t.said (normalize dir)).stop = some e → v = .error (.ofDisk e) := by
  have hstop := h.near.addDirectory_stop dir
  refine .read (.resolver (.next (.notes ⟨rfl, rfl⟩) (.next (.update ⟨rfl, rfl⟩) (.goOn ?_))))
  refine ⟨fun hs => ?_, fun e hs => ?_⟩
  · obtain ⟨hnear, hmem⟩ := h.near.addDirectory hs
    rw [hstop, hs]
    exact ⟨rfl, ⟨h.source, hnear, h.tree, h.last⟩, hmem⟩
  · rw [hstop, hs]
    rfl

theorem parentsIn_ends (h : Steady t r) (dir object : String) :
    Ends t r (parentsIn dir object) (Found t (t.Home object) (t.lookIn dir object)) := by
  refine (lookNear_ends h dir).bind (fun _ r' ⟨hok, herr⟩ => .resolver (.pure ?_))
    fun e r' ⟨hok, herr⟩ => ?_
  · rcases hs : (t.said (normalize dir)).stop with _ | e
    · obtain ⟨-, hr', hmem⟩ := hok hs
      refine ⟨fun _ _ => hr', fun ho => ?_⟩
      rw [hr'.near.parentsIn hmem ho, Tree.lookIn, hs]
      rfl
    · exact nomatch herr e hs
  · rcases hs : (t.said (normalize dir)).stop with _ | e'
    · exact nomatch (hok hs).1
    · cases herr e' hs
      refine .off fun _ => ?_
      rw [Tree.lookIn, hs]
      rfl

theorem wholeTree_ends (h : Steady t r) (object : String) :
    Ends t r (wholeTree object) fun v r' => Found t True (ended t.whole.stop t.whole.index) v r' ∧
      ∀ i, v = .ok i → t.whole.stop = none ∧ i = t.whole.index := by
  refine .resolver ?_
  rcases hr : r.tree with _ | i
  · refine .read (.next (.note ⟨rfl, rfl⟩) ?_)
    have hwhole : (Index.empty r.source).addTree t.disk t.cwd = t.whole := by rw [h.source]; rfl
    rw [hwhole]
    refine .next (.update ⟨rfl, rfl⟩) ?_
    rcases hs : t.whole.stop with _ | e
    · have hsteady : Steady t { r with tree := some t.whole.index } := by
        refine ⟨h.source, h.near, fun i hi => ?_, h.last⟩
        exact ⟨(Option.some.inj hi).symm, hs⟩
      refine .next (.goOn ⟨rfl, rfl⟩) (.next (.note ⟨rfl, rfl⟩) (.pure ?_))
      exact ⟨⟨fun _ _ => hsteady, fun _ => rfl⟩, fun i hi => ⟨rfl, (Except.ok.inj hi).symm⟩⟩
    · refine Ends.bind (P := fun v _ => v = .error (.ofDisk e)) (.goOn rfl)
        (fun _ _ h => nomatch h) fun e' r' he => ?_
      cases he
      exact ⟨.off fun _ => rfl, nofun⟩
  · obtain ⟨rfl, hs⟩ := h.tree i hr
    refine .pure ⟨⟨fun _ _ => h, fun _ => ?_⟩, fun i hi => ⟨hs, (Except.ok.inj hi).symm⟩⟩
    rw [hs]
    rfl

theorem treeParents_ends (h : Steady t r) (object : String) :
    Ends t r (treeParents object) (Found t True (t.lookAll object)) := by
  refine (wholeTree_ends h object).bind (fun i r' ⟨hf, hi⟩ => ?_) fun e r' ⟨hf, _⟩ => ?_
  · obtain ⟨hs, rfl⟩ := hi i rfl
    have hwant : t.lookAll object = .ok (t.parentsAll object) := by rw [Tree.lookAll, hs]; rfl
    have hr' := hf.steady _ rfl
    rw [hwant]
    dsimp only
    have hps : t.whole.index.parents object = t.parentsAll object := rfl
    rw [hps]
    generalize hps' : t.parentsAll object = ps
    rcases ps with _ | ⟨p, _ | ⟨q, qs⟩⟩
    · exact .pure ⟨fun _ _ => hr', fun _ => rfl⟩
    · refine .next (.update ⟨rfl, rfl⟩) (.pure ⟨fun _ _ => ?_, fun _ => rfl⟩)
      refine ⟨hr'.source, hr'.near, hr'.tree, fun dir hd => ⟨hs, object, p, hps', ?_⟩⟩
      exact (Option.some.inj hd).symm
    · exact .pure ⟨fun _ _ => hr', fun _ => rfl⟩
  · refine .off fun _ => ?_
    have hstop := hf.found trivial
    rw [Tree.lookAll]
    rcases hs : t.whole.stop with _ | e
    · rw [hs] at hstop
      cases hstop
    · rw [hs] at hstop
      exact congrArg Except.error (Except.error.inj hstop)

theorem broadParents_ends (ht : t.IsProper) (h : Steady t r) (object : String) :
    Ends t r (broadParents object)
      (Found t (t.Home object ∧ t.Together object) (t.lookAll object)) := by
  refine .resolver ?_
  rcases hr : r.lastBroadDir with _ | dir
  · exact (treeParents_ends h object).imp fun v r' hf => ⟨hf.steady, fun _ => hf.found trivial⟩
  · obtain ⟨hs, o, p, hp, rfl⟩ := h.last dir hr
    have hread : (t.said (normalize (dirname p))).stop = none :=
      said_ended ht hs (by rw [hp]; exact List.mem_singleton.2 rfl)
    have hin : t.lookIn (dirname p) object = .ok (t.parentsIn (dirname p) object) := by
      rw [Tree.lookIn, hread]
      rfl
    have hall : t.lookAll object = .ok (t.parentsAll object) := by
      rw [Tree.lookAll, hs]
      rfl
    refine (parentsIn_ends h (dirname p) object).bind (fun ps r' hf => ?_) fun e r' hf => ?_
    · have hr' := hf.steady ps rfl
      cases ps with
      | nil =>
        exact (treeParents_ends hr' object).imp fun v r'' hg =>
          ⟨hg.steady, fun _ => hg.found trivial⟩
      | cons q qs =>
        refine .pure ⟨fun _ _ => hr', fun ⟨hhome, htogether⟩ => ?_⟩
        have hqs : q :: qs = t.parentsIn (dirname p) object :=
          Except.ok.inj ((hf.found hhome).trans hin)
        rcases htogether o p hp with hnone | hsame
        · rw [hnone] at hqs
          cases hqs
        · rw [hall, ← hsame, hqs]
    · exact .off fun ⟨hhome, _⟩ => nomatch (hf.found hhome).trans hin

theorem parents_ends (ht : t.IsProper) (h : Steady t r) (object : String) :
    Ends t r (parents object) (Found t (t.Clear object) (t.look object)) := by
  refine (parentsIn_ends h (dirname object) object).bind (fun ps r' hf => ?_) fun e r' hf => ?_
  · have hr' := hf.steady ps rfl
    cases ps with
    | nil =>
      refine (broadParents_ends ht hr' object).imp fun v r'' hg => ⟨hg.steady, fun hc => ?_⟩
      have hlook := (hf.found hc.home).symm
      have hnone := (ended_ok hlook).2
      rw [hg.found ⟨hc.home, hc.together hnone⟩, Tree.look_nil hlook]
    | cons p ps =>
      refine .pure ⟨fun _ _ => hr', fun hc => ?_⟩
      exact (Tree.look_cons (hf.found hc.home).symm).symm
  · exact .off fun hc => (Tree.look_error (hf.found hc.home).symm).symm

end Search

end Hotpatch.Kbuild
