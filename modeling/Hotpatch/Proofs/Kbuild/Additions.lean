import Hotpatch.Proofs.Kbuild.Origins

/-! What an index holds after any additions, directories and whole trees, in whatever order and however
often. It depends on the directories that were added, and not on how they were. -/

namespace Hotpatch.Kbuild

inductive Addition where
  | directory (dir : String)
  | tree
  deriving DecidableEq, Repr

namespace Index

def add (d : Disk) (cwd : Place) (i : Index) : Addition → Growth
  | .directory dir => i.addDirectory d cwd dir
  | .tree => i.addTree d cwd

/-- An index after some additions. One that was broken off leaves what it found until then. -/
def after (d : Disk) (cwd : Place) (i : Index) : List Addition → Index
  | [] => i
  | a :: as => (i.add d cwd a).index.after d cwd as

theorem after_append (d : Disk) (cwd : Place) (i : Index) (as bs : List Addition) :
    i.after d cwd (as ++ bs) = (i.after d cwd as).after d cwd bs := by
  induction as generalizing i with
  | nil => rfl
  | cons a as ih => exact ih _

end Index

namespace Tree

/-- A record says so that can be opened by its path in a directory of the tree. -/
def Says (t : Tree) (dir : String) (e : Edge) : Prop :=
  ∃ name, IsEntry name ∧ e ∈ (Contribution.ofRecord t.disk t.cwd (clean t.source)
    (under (under (clean t.source) dir) name)).edges

/-- Nothing keeps the records of a directory from being read, and none of them is named `.cmd` and
nothing more. -/
structure Regular (t : Tree) (dir : String) : Prop where
  ended : (t.counted dir).stop = none
  titled : (Contribution.ofRecord t.disk t.cwd (clean t.source)
    (under (under (clean t.source) dir) ".cmd")).edges = []

instance (t : Tree) (dir : String) : Decidable (t.Regular dir) :=
  decidable_of_iff ((t.counted dir).stop = none ∧ (Contribution.ofRecord t.disk t.cwd
    (clean t.source) (under (under (clean t.source) dir) ".cmd")).edges = [])
    ⟨fun h => ⟨h.1, h.2⟩, fun h => ⟨h.ended, h.titled⟩⟩

end Tree

/-- A choice among the names of records that leaves out at most the one which gives no title. -/
structure Takes (taken : String → Bool) : Prop where
  records : ∀ n, taken n = true → Contribution.isRecordName n = true
  titled : ∀ n, Contribution.isRecordName n = true → n ≠ ".cmd" → taken n = true

theorem takes_all : Takes Contribution.isRecordName := ⟨fun _ h => h, fun _ h _ => h⟩

theorem takes_full : Takes Contribution.isFullRecordName := by
  refine ⟨fun _ => Contribution.isRecordName_of_full, fun n h hn => ?_⟩
  rw [Contribution.isFullRecordName, h, Bool.and_true, decide_eq_true_eq]
  rw [Contribution.isRecordName, Bool.and_eq_true, Text.ends, List.isSuffixOf_iff_suffix] at h
  obtain ⟨cs, hcs⟩ := h.2
  have hlen := congrArg List.length hcs
  have hending : ".cmd".toList.length = 4 := rfl
  rw [List.length_append, hending, String.length_toList] at hlen
  by_contra hshort
  have hnil : cs = [] := List.eq_nil_of_length_eq_zero (by omega)
  rw [hnil, List.nil_append] at hcs
  exact hn (String.toList_inj.1 hcs.symm)

section Directories

variable {t : Tree} {taken : String → Bool} {dir : String} {e : Edge}

theorem says_of_directory (hd : t.disk.IsProper)
    (h : e ∈ (Contribution.ofDirectory taken t.disk t.cwd (clean t.source) dir).edges) :
    t.Says dir e := by
  obtain ⟨p, n, -, hn, -, he⟩ := Contribution.edge_of_directory h
  obtain ⟨x, hx⟩ := Disk.mem_names hn
  exact ⟨n, hd _ hx n (by simp), he⟩

theorem Tree.Regular.holds (hr : t.Regular dir) (htaken : Takes taken) (h : t.Says dir e) :
    e ∈ (Contribution.ofDirectory taken t.disk t.cwd (clean t.source) dir).edges := by
  obtain ⟨name, hname, he⟩ := h
  refine Contribution.directory_complete hname (fun hrecord => htaken.titled name hrecord ?_)
    (Contribution.ofDirectory_stop htaken.records hr.ended) he
  rintro rfl
  rw [hr.titled] at he
  cases he

theorem Tree.Says.apart (h : t.Says dir e) : e.input ≠ e.target := by
  obtain ⟨name, -, he⟩ := h
  obtain ⟨target, text, -, -, -, he⟩ := Contribution.edge_of_record he
  obtain ⟨input, hinput, rfl⟩ := List.mem_map.1 he
  simpa using (List.mem_filter.1 hinput).2

end Directories

/-- What an index holds is what the records in its directories say. -/
structure Gathered (t : Tree) (i : Index) : Prop where
  source : i.source = clean t.source
  nodup : i.edges.Nodup
  said : ∀ e ∈ i.edges, ∃ dir ∈ i.dirs, t.Says dir e
  all : ∀ dir ∈ i.dirs, t.Regular dir → ∀ e, t.Says dir e → e ∈ i.edges

section Additions

variable {t : Tree} {i : Index}

theorem Gathered.empty (t : Tree) : Gathered t (Index.empty t.source) :=
  ⟨rfl, List.nodup_nil, nofun, nofun⟩

theorem insertDir_dirs (taken : String → Bool) (d : Disk) (cwd : Place) (i : Index) (dir : String) :
    dir ∈ (i.insertDir taken d cwd dir).index.dirs ∧
      i.dirs ⊆ (i.insertDir taken d cwd dir).index.dirs := by
  rw [Index.insertDir]
  split
  · next h => exact ⟨h, List.Subset.refl _⟩
  · exact ⟨List.mem_cons_self, List.subset_cons_self _ _⟩

theorem insertDirs_dirs {d : Disk} {cwd : Place} {dirs : List String} :
    i.dirs ⊆ (i.insertDirs d cwd dirs).index.dirs ∧
      ((i.insertDirs d cwd dirs).stop = none → dirs ⊆ (i.insertDirs d cwd dirs).index.dirs) := by
  induction dirs generalizing i with
  | nil => exact ⟨List.Subset.refl _, fun _ => List.nil_subset _⟩
  | cons dir dirs ih =>
    obtain ⟨hdir, hkeeps⟩ := insertDir_dirs Contribution.isRecordName d cwd i dir
    rw [Index.insertDirs]
    split
    · next hsome => exact ⟨hkeeps, fun hs => by rw [hs] at hsome; cases hsome⟩
    · exact ⟨List.Subset.trans hkeeps ih.1, fun hs => List.cons_subset.2 ⟨ih.1 hdir, ih.2 hs⟩⟩

theorem Gathered.insertDir (hd : t.disk.IsProper) (h : Gathered t i) {taken : String → Bool}
    (htaken : Takes taken) (dir : String) :
    Gathered t (i.insertDir taken t.disk t.cwd dir).index := by
  refine ⟨(insertDir_source ..).trans h.source, insertDir_nodup h.nodup dir, ?_, ?_⟩
  · obtain ⟨hdir, hkeeps⟩ := insertDir_dirs taken t.disk t.cwd i dir
    intro e he
    rcases insertDir_edges he with he | he
    · rw [h.source] at he
      exact ⟨dir, hdir, says_of_directory hd he⟩
    · obtain ⟨x, hx, hsays⟩ := h.said e he
      exact ⟨x, hkeeps hx, hsays⟩
  · rw [Index.insertDir]
    split
    · exact h.all
    · simp only [h.source]
      intro x hx hr e he
      rw [Index.mem_added]
      rcases List.mem_cons.1 hx with rfl | hx
      · exact .inl (hr.holds htaken he)
      · exact .inr (h.all x hx hr e he)

theorem Gathered.insertDirs (hd : t.disk.IsProper) (h : Gathered t i) (dirs : List String) :
    Gathered t (i.insertDirs t.disk t.cwd dirs).index := by
  induction dirs generalizing i with
  | nil => exact h
  | cons dir dirs ih =>
    rw [Index.insertDirs]
    split
    · exact h.insertDir hd takes_all dir
    · exact ih (h.insertDir hd takes_all dir)

theorem Gathered.add (hd : t.disk.IsProper) (h : Gathered t i) (a : Addition) :
    Gathered t (i.add t.disk t.cwd a).index := by
  cases a with
  | directory dir => exact h.insertDir hd takes_full (normalize dir)
  | tree =>
    rw [Index.add, Index.addTree]
    split <;> exact h.insertDirs hd _

theorem Gathered.after (hd : t.disk.IsProper) (h : Gathered t i) (as : List Addition) :
    Gathered t (i.after t.disk t.cwd as) := by
  induction as generalizing i with
  | nil => exact h
  | cons a as ih => exact ih (h.add hd a)

theorem add_dirs (i : Index) (d : Disk) (cwd : Place) (a : Addition) :
    i.dirs ⊆ (i.add d cwd a).index.dirs := by
  cases a with
  | directory dir => exact (insertDir_dirs _ d cwd i (normalize dir)).2
  | tree =>
    rw [Index.add, Index.addTree]
    split <;> exact insertDirs_dirs.1

theorem after_dirs (i : Index) (d : Disk) (cwd : Place) (as : List Addition) :
    i.dirs ⊆ (i.after d cwd as).dirs := by
  induction as generalizing i with
  | nil => exact List.Subset.refl _
  | cons a as ih => exact List.Subset.trans (add_dirs i d cwd a) (ih _)

/-- A tree that was added to its end is in the index with every directory outside `.git`. -/
theorem addTree_dirs (h : i.source = clean t.source) (hs : (i.addTree t.disk t.cwd).stop = none)
    {ns p : Place} (hns : ns.IsProper) (hgit : ".git" ∉ ns)
    (hfind : t.disk.find t.cwd (t.directory ns) = .ok (p, .dir)) :
    Path.text ⟨0, ns⟩ ∈ (i.addTree t.disk t.cwd).index.dirs := by
  have hmem := Tree.mem_directories hns hgit hfind
  rw [← h] at hmem
  rw [Index.addTree] at hs ⊢
  split at hs
  · next hsome =>
    rw [hs] at hsome
    cases hsome
  · next hnone =>
    rw [if_neg hnone]
    exact insertDirs_dirs.2 (Option.not_isSome_iff_eq_none.1 hnone) hmem

theorem Gathered.parents (h : Gathered t i) (object : String) :
    (i.parents object).Pairwise (· < ·) := by
  refine ((i.parents_sorted object).and (Index.parents_nodup h.nodup object)).imp ?_
  exact fun ⟨hle, hne⟩ => Std.lt_of_le_of_ne hle hne

end Additions

/-- Whatever was added to an index, and in whatever order: its edges are those that the records in its
directories say, all of them where the directory's records can be read and have titles. A whole tree
that was added to its end is there with every directory outside `.git`. -/
theorem after_gathered {d : Disk} (hd : d.IsProper) (cwd : Place) (source : String)
    (adds : List Addition) :
    let t : Tree := ⟨d, cwd, source⟩
    let i := (Index.empty source).after d cwd adds
    (∀ e ∈ i.edges, ∃ dir ∈ i.dirs, t.Says dir e) ∧
      (∀ dir ∈ i.dirs, t.Regular dir → ∀ e, t.Says dir e → e ∈ i.edges) ∧
      (∀ e ∈ i.edges, e.input ≠ e.target) ∧
      (∀ before rest, adds = before ++ .tree :: rest →
        (((Index.empty source).after d cwd before).addTree d cwd).stop = none →
        ∀ ns : Place, ns.IsProper → ".git" ∉ ns → ∀ p, d.find cwd (t.directory ns) = .ok (p, .dir) →
          Path.text ⟨0, ns⟩ ∈ i.dirs) ∧
      ∀ object, (i.parents object).Pairwise (· < ·) ∧
        ∀ p, p ∈ i.parents object ↔ ⟨normalize object, p⟩ ∈ i.edges := by
  intro t i
  have hgathered : ∀ as, Gathered t ((Index.empty source).after d cwd as) :=
    fun as => (Gathered.empty t).after hd as
  refine ⟨(hgathered adds).said, (hgathered adds).all, fun e he => ?_, ?_, fun object => ?_⟩
  · obtain ⟨dir, -, hsays⟩ := (hgathered adds).said e he
    exact hsays.apart
  · intro before rest heq hs ns hns hgit p hfind
    have hthen := addTree_dirs (t := t) (hgathered before).source hs hns hgit hfind
    have hrest := after_dirs (((Index.empty source).after d cwd before).addTree d cwd).index d cwd rest
    rw [show i = (Index.empty source).after d cwd (before ++ .tree :: rest) by rw [← heq],
      Index.after_append]
    exact hrest hthen
  · exact ⟨(hgathered adds).parents object, fun _ => Index.mem_parents⟩

namespace Sample

/-- The directory of an object with a record that has no title, and one that has. -/
def untitled : Disk := ⟨[(["l"], .dir), (["l", "x.o"], .dir), (["l", "k"], .dir),
  (["l", "x.o", ".cmd"], file "cmd_x := a.o"), (["l", "k", ".m.ko.cmd"], file "cmd_m := k/b.o k/m.ko")], 1⟩

end Sample

theorem after_gathered_untitled :
    (⟨"k/b.o", "k/m.ko"⟩ : Edge) ∈ ((Index.empty "/l").after Sample.untitled []
      [.directory "x.o", .directory "./k", .tree]).edges := by
  refine (after_gathered (by decide) [] "/l" _).2.1 "k" (by decide +kernel) (by decide +kernel) _
    ⟨".m.ko.cmd", ?_, by decide +kernel⟩
  exact ⟨⟨by decide, by decide, by decide⟩, by decide⟩

/-- A record without a title counts in a whole tree, but not where its directory is added alone. -/
example :
    ((Index.empty "/l").after Sample.untitled [] [.tree]).edges =
      [⟨"a.o", "x.o"⟩, ⟨"k/b.o", "k/m.ko"⟩] ∧
    ((Index.empty "/l").after Sample.untitled [] [.directory "x.o", .tree]).edges =
      [⟨"k/b.o", "k/m.ko"⟩] ∧
    ¬ (⟨Sample.untitled, [], "/l"⟩ : Tree).Regular "x.o" := by
  decide +kernel

end Hotpatch.Kbuild
