import Mathlib.Data.List.Nodup
import Hotpatch.Proofs.Kbuild.Record

/-! What an index of some directories holds is what their records say, in whatever order they were
added; the parents that it tells are sorted and each stands there once. -/

namespace Hotpatch.Kbuild

/-- A file tree that stays as it is, with the source tree in it whose records are read. -/
structure Tree where
  disk : Disk
  cwd : Place
  source : String

namespace Tree

structure IsProper (t : Tree) : Prop where
  disk : t.disk.IsProper
  cwd : t.cwd.IsProper
  source : isAbsolute t.source = true

instance (t : Tree) : Decidable t.IsProper :=
  decidable_of_iff (t.disk.IsProper ∧ t.cwd.IsProper ∧ isAbsolute t.source = true)
    ⟨fun h => ⟨h.1, h.2.1, h.2.2⟩, fun h => ⟨h.disk, h.cwd, h.source⟩⟩

/-- What the records of one directory say. -/
def said (t : Tree) (dir : String) : Contribution :=
  .ofDirectory Contribution.isFullRecordName t.disk t.cwd (clean t.source) dir

/-- What one record says. -/
def told (t : Tree) (q : Place) : Contribution :=
  .ofRecord t.disk t.cwd (clean t.source) q.text

/-- An index of one directory alone. -/
def alone (t : Tree) (dir : String) : Growth :=
  (Index.empty t.source).addDirectory t.disk t.cwd dir

/-- An index of everything. -/
def whole (t : Tree) : Growth := (Index.empty t.source).addTree t.disk t.cwd

/-- The parents of an object that a directory holds by itself. -/
def parentsIn (t : Tree) (dir object : String) : List String :=
  ((t.alone dir).index.parents object).filter (dirname · = dir)

/-- The parents of an object anywhere. -/
def parentsAll (t : Tree) (object : String) : List String := t.whole.index.parents object

/-- A record that lists an object is read with the directory of its target, if it is read with any
directory. -/
def Home (t : Tree) (object : String) : Prop :=
  ∀ dir, ∀ e ∈ (t.said dir).edges, e.input = normalize object →
    e ∈ (t.said (normalize (dirname e.target))).edges

end Tree

/-- Two sorted lists without repetitions and with the same members are the same. -/
theorem sorted_ext {as bs : List String} (ha : as.Pairwise (· ≤ ·)) (hb : bs.Pairwise (· ≤ ·))
    (has : as.Nodup) (hbs : bs.Nodup) (h : ∀ s, s ∈ as ↔ s ∈ bs) : as = bs :=
  ((List.perm_ext_iff_of_nodup has hbs).2 h).eq_of_pairwise
    (fun _ _ _ _ h₁ h₂ => String.le_antisymm h₁ h₂) ha hb

namespace Index

variable {i : Index} {d : Disk} {cwd : Place} {object p : String}

theorem mem_parents : p ∈ i.parents object ↔ ⟨normalize object, p⟩ ∈ i.edges := by
  rw [parents, Text.mem_sorted, List.mem_map]
  constructor
  · rintro ⟨⟨a, b⟩, he, rfl⟩
    obtain ⟨he, ha⟩ := List.mem_filter.1 he
    rw [decide_eq_true_eq] at ha
    exact ha ▸ he
  · exact fun h => ⟨_, List.mem_filter.2 ⟨h, by simp⟩, rfl⟩

theorem parents_sorted (i : Index) (object : String) :
    (i.parents object).Pairwise (· ≤ ·) :=
  Text.sorted_ordered _

theorem parents_nodup (h : i.edges.Nodup) (object : String) : (i.parents object).Nodup := by
  rw [parents, (Text.sorted_perm _).nodup_iff]
  refine List.Nodup.map_on ?_ (h.filter _)
  rintro ⟨a, b⟩ ha ⟨a', b'⟩ ha' (rfl : b = b')
  have h₁ := (List.mem_filter.1 ha).2
  have h₂ := (List.mem_filter.1 ha').2
  rw [decide_eq_true_eq] at h₁ h₂
  exact congrArg (Edge.mk · b) (h₁.trans h₂.symm)

/-- Edges are added each once. -/
theorem mem_added {es fs : List Edge} {e : Edge} :
    e ∈ es.foldr List.insert fs ↔ e ∈ es ∨ e ∈ fs := by
  induction es with
  | nil => simp
  | cons x es ih =>
    rw [List.foldr_cons, List.mem_insert_iff, ih, List.mem_cons, or_assoc]

theorem added_nodup {es fs : List Edge} (h : fs.Nodup) : (es.foldr List.insert fs).Nodup := by
  induction es with
  | nil => exact h
  | cons x es ih =>
    rw [List.foldr_cons]
    exact ih.insert

end Index

theorem Tree.alone_edges (t : Tree) (dir : String) : (t.alone dir).index.edges =
    (t.said (normalize dir)).edges.foldr List.insert [] := by
  rw [Tree.alone, Index.addDirectory, Index.insertDir, if_neg (by simp [Index.empty])]
  simp only [Index.empty, Tree.said]

/-- An index of directories of a tree, each read to its end. -/
structure Near (t : Tree) (i : Index) : Prop where
  source : i.source = clean t.source
  nodup : i.edges.Nodup
  ended : ∀ dir ∈ i.dirs, (t.said dir).stop = none
  edges : ∀ e, e ∈ i.edges ↔ ∃ dir ∈ i.dirs, e ∈ (t.said dir).edges

namespace Near

variable {t : Tree} {i : Index} {dir object : String}

theorem empty (t : Tree) : Near t (Index.empty t.source) :=
  ⟨rfl, List.nodup_nil, nofun, fun _ => ⟨nofun, nofun⟩⟩

/-- Adding a directory breaks off where the directory does, however much was added before. -/
theorem addDirectory_stop (h : Near t i) (dir : String) :
    (i.addDirectory t.disk t.cwd dir).stop = (t.said (normalize dir)).stop := by
  rw [Index.addDirectory, Index.insertDir]
  split
  · next hm => exact (h.ended _ hm).symm
  · simp only [h.source, Tree.said]

theorem add (h : Near t i) (hs : (t.said dir).stop = none) :
    Near t ⟨clean t.source, dir :: i.dirs, (t.said dir).edges.foldr List.insert i.edges⟩ := by
  refine ⟨rfl, ?_, ?_, fun e => ?_⟩
  · dsimp only
    exact Index.added_nodup h.nodup
  · intro d hd
    rcases List.mem_cons.1 hd with rfl | hd
    · exact hs
    · exact h.ended d hd
  · rw [Index.mem_added, h.edges]
    simp only [List.mem_cons, exists_eq_or_imp]

theorem addDirectory (h : Near t i) (hs : (t.said (normalize dir)).stop = none) :
    Near t (i.addDirectory t.disk t.cwd dir).index ∧
      normalize dir ∈ (i.addDirectory t.disk t.cwd dir).index.dirs := by
  rw [Index.addDirectory, Index.insertDir]
  split
  · next hm => exact ⟨h, hm⟩
  · simp only [h.source]
    exact ⟨h.add hs, List.mem_cons_self⟩

/-- What a directory by itself says about an object can be told from any index it was added to. -/
theorem parentsIn (h : Near t i) (hdir : normalize dir ∈ i.dirs)
    (ho : t.Home object) :
    (i.parents object).filter (dirname · = dir) = t.parentsIn dir object := by
  have halone := t.alone_edges dir
  have hnodup : (t.alone dir).index.edges.Nodup := by
    rw [halone]
    exact Index.added_nodup List.nodup_nil
  refine sorted_ext ((i.parents_sorted object).filter _)
    (((t.alone dir).index.parents_sorted object).filter _)
    ((Index.parents_nodup h.nodup object).filter _) ((Index.parents_nodup hnodup object).filter _)
    fun p => ?_
  rw [Tree.parentsIn, List.mem_filter, List.mem_filter, Index.mem_parents, Index.mem_parents,
    h.edges, halone, Index.mem_added]
  simp only [decide_eq_true_eq, List.not_mem_nil, or_false]
  constructor
  · rintro ⟨⟨d, hd, he⟩, rfl⟩
    exact ⟨ho d ⟨normalize object, p⟩ he rfl, rfl⟩
  · rintro ⟨he, rfl⟩
    exact ⟨⟨_, hdir, he⟩, rfl⟩

end Near

namespace Sample

def file (text : String) : Node := .file ⟨Text.encode text, 0, 0⟩

end Sample

end Hotpatch.Kbuild
