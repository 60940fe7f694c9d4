import Hotpatch.Proofs.Kbuild.Ascent
import Hotpatch.Proofs.Kbuild.Recorded

/-! Where the parents come from that a search offers. Whatever was asked before, even where it failed,
every one of them is recorded; and as long as nothing failed, those that are not offered are missing
for a reason. -/

namespace Hotpatch.Kbuild

namespace Tree

/-- Another object has its only parent in a directory. -/
def Remembered (t : Tree) (dir : String) : Prop := ∃ o p, t.parentsAll o = [p] ∧ dir = dirname p

/-- The parents that a search can offer which was never broken off: all of them, or some in the
object's own directory or a remembered one, among them those that this directory holds by itself. -/
inductive Offers (t : Tree) (object : String) : List String → Prop
  | all : t.whole.stop = none → Offers t object (t.parentsAll object)
  | some {dir ps} : dir = dirname object ∨ t.Remembered dir → ps ≠ [] →
      (∀ p ∈ ps, t.Told (normalize object) p ∧ dirname p = dir) → t.parentsIn dir object ⊆ ps →
      Offers t object ps

end Tree

/-- What a resolver holds of a tree stands there, though some of it may be missing. -/
structure Held (t : Tree) (r : Resolver) : Prop where
  source : r.source = t.source
  near : r.near.source = clean t.source
  nodup : r.near.edges.Nodup
  told : ∀ e ∈ r.near.edges, t.Told e.input e.target
  tree : ∀ i, r.tree = some i → i = t.whole.index
  last : ∀ dir, r.lastBroadDir = some dir → ∃ x, IsInner x ∧ dir = dirname x

section Edges

variable {t : Tree} {e : Edge} {taken : String → Bool} {dir : String}

theorem told_of_directory (ht : t.IsProper)
    (htaken : ∀ n, taken n = true → Contribution.isRecordName n = true)
    (he : e ∈ (Contribution.ofDirectory taken t.disk t.cwd (clean t.source) dir).edges) :
    t.Told e.input e.target :=
  edge_of_node ht.disk ht.cwd (isAbsolute_clean ht.source) htaken he

theorem whole_told (ht : t.IsProper) (he : e ∈ t.whole.index.edges) :
    t.Told e.input e.target ∧ IsInner e.target := by
  obtain ⟨dir, hdir, he⟩ := whole_edges he
  refine ⟨told_of_directory ht (fun _ h => h) he, ?_⟩
  obtain ⟨ns, hns, rfl, -⟩ := directories_inner ht.disk hdir
  obtain ⟨q, n, -, hn, -, he⟩ := Contribution.edge_of_directory he
  obtain ⟨x, hx⟩ := Disk.mem_names hn
  have hentry : IsEntry n := ht.disk _ hx n (by simp)
  obtain ⟨target, text, htarget, hpart, -, he⟩ := Contribution.edge_of_record he
  rw [Contribution.made_target he]
  obtain ⟨ts, hts, -, rfl⟩ := target_inner ht.cwd hns hentry htarget hpart
  refine ⟨ts, hts, ?_, rfl⟩
  rintro rfl
  exact absurd hpart (by decide)

theorem insertDir_source (taken : String → Bool) (d : Disk) (cwd : Place) (i : Index)
    (dir : String) : (i.insertDir taken d cwd dir).index.source = i.source := by
  rw [Index.insertDir]
  split <;> rfl

theorem insertDir_edges {i : Index} {d : Disk} {cwd : Place}
    (he : e ∈ (i.insertDir taken d cwd dir).index.edges) :
    e ∈ (Contribution.ofDirectory taken d cwd i.source dir).edges ∨ e ∈ i.edges := by
  rw [Index.insertDir] at he
  split at he
  · exact .inr he
  · dsimp only at he
    exact Index.mem_added.1 he

theorem insertDir_nodup {i : Index} {d : Disk} {cwd : Place} (h : i.edges.Nodup) (dir : String) :
    (i.insertDir taken d cwd dir).index.edges.Nodup := by
  rw [Index.insertDir]
  split
  · exact h
  · dsimp only
    exact Index.added_nodup h

theorem insertDirs_nodup {i : Index} {d : Disk} {cwd : Place} {dirs : List String}
    (h : i.edges.Nodup) : (i.insertDirs d cwd dirs).index.edges.Nodup := by
  induction dirs generalizing i with
  | nil => exact h
  | cons dir dirs ih =>
    rw [Index.insertDirs]
    split
    · exact insertDir_nodup h dir
    · exact ih (insertDir_nodup h dir)

theorem whole_nodup (t : Tree) : t.whole.index.edges.Nodup := by
  rw [Tree.whole, Index.addTree]
  split <;> exact insertDirs_nodup List.nodup_nil

end Edges

theorem Held.look {t : Tree} {r : Resolver} (h : Held t r) (ht : t.IsProper) (dir : String) :
    Held t { r with near := (r.near.addDirectory t.disk t.cwd dir).index } := by
  unfold Index.addDirectory
  generalize normalize dir = dir
  refine ⟨h.source, (insertDir_source ..).trans h.near, insertDir_nodup h.nodup dir, fun e he => ?_,
    h.tree, h.last⟩
  rcases insertDir_edges he with he | he
  · rw [h.near] at he
    exact told_of_directory ht (fun _ => Contribution.isRecordName_of_full) he
  · exact h.told e he

namespace Search

variable {t : Tree} {r : Resolver} {object dir : String}

/-- How a search for parents ends that holds what stands there; `kin` says more about those that it
finds. -/
structure Offered (t : Tree) (object : String) (kin : String → Prop)
    (v : Except Fault (List String)) (r' : Resolver) : Prop where
  held : Held t r'
  nodup : ∀ ps, v = .ok ps → ps.Nodup
  told : ∀ ps, v = .ok ps → ∀ p ∈ ps, t.Told (normalize object) p ∧ kin p

theorem Offered.imp {kin kin' : String → Prop} {v : Except Fault (List String)} {r' : Resolver}
    (h : Offered t object kin v r') (hkin : ∀ p, t.Told (normalize object) p → kin p → kin' p) :
    Offered t object kin' v r' :=
  ⟨h.held, h.nodup, fun ps hps p hp =>
    ⟨(h.told ps hps p hp).1, hkin p (h.told ps hps p hp).1 (h.told ps hps p hp).2⟩⟩

theorem Offered.off {kin : String → Prop} {e : Fault} {r' : Resolver} (h : Held t r') :
    Offered t object kin (.error e) r' :=
  ⟨h, nofun, nofun⟩

theorem lookNear_holds (ht : t.IsProper) (h : Held t r) (dir : String) :
    Ends t r (lookNear dir) fun _ r' => Held t r' := by
  have hheld : Held t { r with near := (r.near.addDirectory t.disk t.cwd dir).index } :=
    h.look ht dir
  exact .read (.resolver (.next (.notes ⟨rfl, rfl⟩) (.next (.update ⟨rfl, rfl⟩) (.goOn hheld))))

theorem parentsIn_offers (ht : t.IsProper) (h : Held t r) (dir object : String) :
    Ends t r (parentsIn dir object) (Offered t object (dirname · = dir)) := by
  refine (lookNear_holds ht h dir).bind (fun _ r' hr' => .resolver (.pure ?_)) fun _ _ => .off
  refine ⟨hr', fun ps hps => ?_, fun ps hps p hp => ?_⟩
  · rw [← Except.ok.inj hps]
    exact (Index.parents_nodup hr'.nodup object).filter _
  · rw [← Except.ok.inj hps] at hp
    obtain ⟨hmem, hdir⟩ := List.mem_filter.1 hp
    exact ⟨hr'.told _ (Index.mem_parents.1 hmem), of_decide_eq_true hdir⟩

/-- The first look at the whole tree shows how far it can be read; what was read is taken for the whole
from then on. -/
theorem wholeTree_holds (h : Held t r) (object : String) :
    Ends t r (wholeTree object) fun v r' => Held t r' ∧ r'.tree = some t.whole.index ∧
      v = if r.tree = none then ended t.whole.stop t.whole.index else .ok t.whole.index := by
  refine .resolver ?_
  rcases hr : r.tree with _ | i
  · refine .read (.next (.note ⟨rfl, rfl⟩) ?_)
    have hwhole : (Index.empty r.source).addTree t.disk t.cwd = t.whole := by rw [h.source]; rfl
    rw [hwhole]
    have hheld : Held t { r with tree := some t.whole.index } :=
      ⟨h.source, h.near, h.nodup, h.told, fun i hi => (Option.some.inj hi).symm, h.last⟩
    refine .next (.update ⟨rfl, rfl⟩) ?_
    rw [if_pos rfl]
    rcases hs : t.whole.stop with _ | e
    · exact .next (.goOn ⟨rfl, rfl⟩) (.next (.note ⟨rfl, rfl⟩) (.pure ⟨hheld, rfl, rfl⟩))
    · refine Ends.bind (P := fun v r' => v = .error (.ofDisk e) ∧ Held t r' ∧
        r'.tree = some t.whole.index) (.goOn ⟨rfl, hheld, rfl⟩) (fun _ _ h => nomatch h.1)
        fun e' r' ⟨he, hr', htree⟩ => ?_
      cases he
      exact ⟨hr', htree, rfl⟩
  · obtain rfl := h.tree i hr
    exact .pure ⟨h, hr, by rw [if_neg (by simp)]⟩

theorem treeParents_offers (ht : t.IsProper) (h : Held t r) (object : String) :
    Ends t r (treeParents object) (Offered t object IsInner) := by
  refine (wholeTree_holds h object).bind (fun i r' ⟨hr', _, hi⟩ => ?_) fun _ _ hf => .off hf.1
  obtain rfl : i = t.whole.index := by
    split at hi
    · exact (ended_ok hi.symm).2.symm
    · exact Except.ok.inj hi
  have htold : ∀ p ∈ t.whole.index.parents object, t.Told (normalize object) p ∧ IsInner p :=
    fun p hp => whole_told ht (Index.mem_parents.1 hp)
  have hnodup := Index.parents_nodup (whole_nodup t) object
  dsimp only
  generalize t.whole.index.parents object = ps at htold hnodup ⊢
  have hoffered : ∀ r'', Held t r'' → Offered t object IsInner (.ok ps) r'' :=
    fun r'' hr'' => ⟨hr'', fun qs hqs => Except.ok.inj hqs ▸ hnodup,
      fun qs hqs => Except.ok.inj hqs ▸ htold⟩
  rcases ps with _ | ⟨p, _ | ⟨q, qs⟩⟩
  · exact .pure (hoffered r' hr')
  · refine .next (.update ⟨rfl, rfl⟩) (.pure (hoffered _ ?_))
    refine ⟨hr'.source, hr'.near, hr'.nodup, hr'.told, hr'.tree, fun dir hdir => ⟨p, ?_, ?_⟩⟩
    · exact (htold p List.mem_cons_self).2
    · exact (Option.some.inj hdir).symm
  · exact .pure (hoffered r' hr')

theorem broadParents_offers (ht : t.IsProper) (h : Held t r) (object : String) :
    Ends t r (broadParents object) (Offered t object IsInner) := by
  refine .resolver ?_
  rcases hr : r.lastBroadDir with _ | dir
  · exact treeParents_offers ht h object
  · obtain ⟨x, hx, rfl⟩ := h.last dir hr
    have hkin : ∀ p, t.Told (normalize object) p → dirname p = dirname x → IsInner p :=
      fun p hp hdir => hp.inner ht hx hdir
    refine (parentsIn_offers ht h (dirname x) object).bind (fun ps r' hf => ?_)
      fun _ _ hf => .off hf.held
    cases ps with
    | nil => exact treeParents_offers ht hf.held object
    | cons p ps => exact .pure (hf.imp hkin)

/-- Whatever was asked before, the parents that are offered are recorded; those of something inside
the tree lie inside it. -/
theorem parents_offers (ht : t.IsProper) (h : Held t r) (object : String) :
    Ends t r (parents object) (Offered t object fun p => IsInner object → IsInner p) := by
  refine (parentsIn_offers ht h (dirname object) object).bind (fun ps r' hf => ?_)
    fun _ _ hf => .off hf.held
  cases ps with
  | nil =>
    exact (broadParents_offers ht hf.held object).imp fun v r'' hg => hg.imp fun _ _ hp _ => hp
  | cons p ps => exact .pure (hf.imp fun p hp hdir hobject => hp.inner ht hobject hdir)

/-- How a search for parents ends that knows rightly, and was not broken off. -/
def Reasoned (t : Tree) (offers : List String → Prop) (v : Except Fault (List String))
    (r' : Resolver) : Prop :=
  ∀ ps, v = .ok ps → Steady t r' ∧ offers ps

theorem Reasoned.off {offers : List String → Prop} {e : Fault} {r' : Resolver} :
    Reasoned t offers (.error e) r' := by
  rintro ps ⟨⟩

theorem parentsIn_reasoned (ht : t.IsProper) (h : Steady t r) (dir object : String) :
    Ends t r (parentsIn dir object) (Reasoned t fun ps =>
      (∀ p ∈ ps, t.Told (normalize object) p ∧ dirname p = dir) ∧ t.parentsIn dir object ⊆ ps) := by
  refine (lookNear_ends h dir).bind (fun _ r' hf => .resolver (.pure fun ps hps => ?_))
    fun _ _ _ => .off
  obtain ⟨hok, herr⟩ := hf
  rcases hs : (t.said (normalize dir)).stop with _ | e
  · obtain ⟨-, hr', hdir⟩ := hok hs
    rw [← Except.ok.inj hps]
    refine ⟨hr', fun p hp => ?_, fun p hp => ?_⟩
    · obtain ⟨hmem, hdir⟩ := List.mem_filter.1 hp
      obtain ⟨x, -, he⟩ := (hr'.near.edges _).1 (Index.mem_parents.1 hmem)
      exact ⟨told_of_directory ht (fun _ => Contribution.isRecordName_of_full) he,
        of_decide_eq_true hdir⟩
    · rw [Tree.parentsIn, List.mem_filter, Index.mem_parents, t.alone_edges, Index.mem_added] at hp
      refine List.mem_filter.2 ⟨Index.mem_parents.2 ?_, hp.2⟩
      exact (hr'.near.edges _).2 ⟨_, hdir, hp.1.resolve_right List.not_mem_nil⟩
  · cases herr e hs

theorem treeParents_reasoned (h : Steady t r) (object : String) :
    Ends t r (treeParents object) (Reasoned t (t.Offers object)) := by
  refine (treeParents_ends h object).imp fun v r' hf ps hps => ⟨hf.steady ps hps, ?_⟩
  obtain ⟨hs, rfl⟩ := ended_ok ((hf.found trivial).symm.trans hps)
  exact .all hs

theorem broadParents_reasoned (ht : t.IsProper) (h : Steady t r) (object : String) :
    Ends t r (broadParents object) (Reasoned t (t.Offers object)) := by
  refine .resolver ?_
  rcases hr : r.lastBroadDir with _ | dir
  · exact treeParents_reasoned h object
  · obtain ⟨-, hremembered⟩ := h.last dir hr
    refine (parentsIn_reasoned ht h dir object).bind (fun ps r' hf => ?_) fun _ _ _ => .off
    obtain ⟨hr', htold, hsub⟩ := hf ps rfl
    cases ps with
    | nil => exact treeParents_reasoned hr' object
    | cons p ps =>
      refine .pure fun qs hqs => ?_
      rw [← Except.ok.inj hqs]
      exact ⟨hr', .some (.inr hremembered) (List.cons_ne_nil p ps) htold hsub⟩

/-- As long as nothing was broken off, parents are offered for a reason. -/
theorem parents_reasoned (ht : t.IsProper) (h : Steady t r) (object : String) :
    Ends t r (parents object) (Reasoned t (t.Offers object)) := by
  refine (parentsIn_reasoned ht h (dirname object) object).bind (fun ps r' hf => ?_)
    fun _ _ _ => .off
  obtain ⟨hr', htold, hsub⟩ := hf ps rfl
  cases ps with
  | nil => exact broadParents_reasoned ht hr' object
  | cons p ps =>
    refine .pure fun qs hqs => ?_
    rw [← Except.ok.inj hqs]
    exact ⟨hr', .some (.inl rfl) (List.cons_ne_nil p ps) htold hsub⟩

end Search

namespace Tree

variable {t : Tree} {object : String}

/-- What is offered is recorded. -/
theorem Offers.told {ps : List String} (ht : t.IsProper) (h : t.Offers object ps) :
    ∀ p ∈ ps, t.Told (normalize object) p := by
  cases h with
  | all => exact fun p hp => (whole_told ht (Index.mem_parents.1 hp)).1
  | some _ _ htold => exact fun p hp => (htold p hp).1

/-- Where no parents are offered, none are listed anywhere. -/
theorem Offers.none (h : t.Offers object []) (hn : normalize object = object) (p : String) :
    ¬ t.Listed object p := by
  intro hp
  generalize hps : ([] : List String) = ps at h
  cases h with
  | all hs =>
    have hmem : p ∈ t.parentsAll object :=
      Index.mem_parents.2 (by rw [hn]; exact whole_complete hs hp)
    rw [← hps] at hmem
    cases hmem
  | some _ hne => exact hne hps.symm

end Tree

end Hotpatch.Kbuild
