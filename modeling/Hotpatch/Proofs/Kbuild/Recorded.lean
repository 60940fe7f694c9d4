import Hotpatch.Proofs.Kbuild.Inner

/-! What goes into what, as the records of a tree have it, and that an index of the whole tree that was
read to its end holds all of it. -/

namespace Hotpatch

namespace Disk

variable {d : Disk} {cwd : Place} {s : String}

theorem readText_find {text : String} (h : d.readText cwd s = .ok text) :
    ∃ f, d.find cwd s = .ok (Place.of cwd s, .file f) := by
  rw [readText, read, open?] at h
  split at h
  · next q f hf =>
    rw [(find_ok hf).1] at hf
    exact ⟨f, hf⟩
  · cases h
  · cases h

end Disk

namespace Kbuild

variable {cwd : Place} {source path name target : String}

theorem isRecordName_of_target (hn : Path.IsName name)
    (h : target? cwd (under path name) source = some target) :
    Contribution.isRecordName name = true := by
  rw [target?, fileName_under hn] at h
  dsimp only at h
  split at h
  · next rest hname =>
    split at h
    · next hends =>
      rw [String.ofList_toList] at hends
      have hstarts : Text.starts "." name = true := by
        rw [Text.starts, hname]
        simp
      rw [Contribution.isRecordName, hstarts, hends]
      rfl
    · cases h
  · cases h

namespace Contribution

variable {e : Edge}

theorem mem_join {cs : List Contribution} {c : Contribution} (hs : ∀ c ∈ cs, c.stop = none)
    (hc : c ∈ cs) (he : e ∈ c.edges) : e ∈ (join cs).edges := by
  induction cs with
  | nil => cases hc
  | cons c' cs ih =>
    rw [join, List.foldr_cons, append, if_neg (by simp [hs c' List.mem_cons_self])]
    rcases List.mem_cons.1 hc with rfl | hc
    · exact List.mem_append_left _ he
    · exact List.mem_append_right _ (ih (fun c hc => hs c (List.mem_cons_of_mem _ hc)) hc)

/-- A directory that is read to its end gives all the edges of its records. -/
theorem directory_complete {taken : String → Bool} {d : Disk} {dir : String} (hname : IsEntry name)
    (htaken : isRecordName name = true → taken name = true)
    (hs : (ofDirectory taken d cwd source dir).stop = none)
    (h : e ∈ (ofRecord d cwd source (under (under source dir) name)).edges) :
    e ∈ (ofDirectory taken d cwd source dir).edges := by
  obtain ⟨target, text, htarget, -, htext, -⟩ := edge_of_record h
  obtain ⟨f, hfile⟩ := Disk.readText_find htext
  have hdir := Disk.find_above (text_under source dir) hname.toIsName hfile
  rw [ofDirectory_eq] at hs ⊢
  rw [hdir] at hs ⊢
  rw [Place.of_under_entry hname] at hfile
  have hnode := Disk.node_of_lookup (Disk.find_ok hfile).2 (by simp)
  refine mem_join (stop_join hs) (List.mem_map.2 ⟨name, List.mem_filter.2 ⟨?_, ?_⟩, rfl⟩) h
  · exact Disk.names_of_mem hnode
  · exact htaken (isRecordName_of_target hname.toIsName htarget)

end Contribution

namespace Tree

/-- Where the source tree stands. -/
def root (t : Tree) : Place := Place.of t.cwd (clean t.source)

/-- A record somewhere says that an object goes into a target. -/
def Told (t : Tree) (a b : String) : Prop := ∃ q ∈ t.disk.nodes, ⟨a, b⟩ ∈ (t.told q.1).edges

/-- A record inside the source tree says so. -/
def Links (t : Tree) (a b : String) : Prop :=
  ∃ q ∈ t.disk.nodes, t.root <+: q.1 ∧ ⟨a, b⟩ ∈ (t.told q.1).edges

/-- The directory of the source tree that names one below the other lead to. -/
def directory (t : Tree) (ns : Place) : String := under (clean t.source) (Path.text ⟨0, ns⟩)

/-- A record says so that can be opened by its path below the source directory and that is not inside
a `.git` directory. -/
def Listed (t : Tree) (a b : String) : Prop :=
  ∃ ns name, Place.IsProper ns ∧ IsEntry name ∧ ".git" ∉ ns ∧
    ⟨a, b⟩ ∈ (Contribution.ofRecord t.disk t.cwd (clean t.source)
      (under (t.directory ns) name)).edges

section Edges

variable {t : Tree} {a b : String}

theorem Links.told (h : t.Links a b) : t.Told a b := by
  obtain ⟨q, hq, -, he⟩ := h
  exact ⟨q, hq, he⟩

theorem told_shape (ht : t.IsProper) {q : Place × Node} (hq : q ∈ t.disk.nodes)
    (he : ⟨a, b⟩ ∈ (t.told q.1).edges) : isPart b = true ∧ ∃ k ts, Place.IsProper ts ∧
      b = Path.text ⟨0, List.replicate k ".." ++ ts⟩ ∧ (k = 0 → t.root <+: q.1) := by
  obtain ⟨target, text, htarget, hpart, -, he⟩ := Contribution.edge_of_record he
  obtain rfl : b = target := Contribution.made_target he
  rcases List.eq_nil_or_concat q.1 with hnil | ⟨p, name, hp⟩
  · rw [hnil] at htarget
    exact absurd htarget (by simp [target?, show fileName (Place.text []) = "" from by decide])
  · rw [List.concat_eq_append] at hp
    have hproper : Place.IsProper (p ++ [name]) := hp ▸ ht.disk q hq
    rw [hp] at htarget ⊢
    obtain ⟨k, ts, hts, hb, hk⟩ := target_shape ht.cwd hproper htarget hpart
    exact ⟨hpart, k, ts, hts, hb, fun h => (hk h).trans (List.prefix_append p [name])⟩

/-- Where a target lies inside the tree, its record does. -/
theorem Told.links (ht : t.IsProper) (h : t.Told a b) (hb : IsInner b) : t.Links a b := by
  obtain ⟨q, hq, he⟩ := h
  obtain ⟨-, k, ts, hts, rfl, hk⟩ := told_shape ht hq he
  exact ⟨q, hq, hk (inner_of_downward hts hb), he⟩

/-- Targets are named by paths in normal form. -/
theorem Told.normal (ht : t.IsProper) (h : t.Told a b) : normalize b = b := by
  obtain ⟨q, hq, he⟩ := h
  obtain ⟨-, k, ts, hts, rfl, -⟩ := told_shape ht hq he
  exact normalize_outward hts

theorem Told.inner (ht : t.IsProper) (h : t.Told a b) {x : String} (hx : IsInner x)
    (hdir : dirname b = dirname x) : IsInner b := by
  obtain ⟨q, hq, he⟩ := h
  obtain ⟨hpart, k, ts, hts, hb, -⟩ := told_shape ht hq he
  exact inner_of_dirname hx hts hb hpart hdir

end Edges

section Places

variable {t : Tree} {ns : Place} {name : String}

theorem directory_place (hns : ns.IsProper) : Place.of t.cwd (t.directory ns) = t.root ++ ns := by
  rw [directory, Place.of_under_inner hns]
  rfl

theorem directory_nil : t.directory [] = clean t.source := by
  have hdot : Path.text ⟨0, []⟩ = "." := rfl
  have hglue := ofText_glue (a := clean t.source) (show isAbsolute "." = false by decide)
  have hparts : (Path.ofText ".").parts = [] := by decide
  rw [hparts, List.append_nil] at hglue
  have hclean : (Path.ofText (clean t.source)).text = clean t.source := clean_clean t.source
  rw [directory, hdot, under, clean, hglue]
  refine Eq.trans ?_ hclean
  generalize Path.ofText (clean t.source) = p
  rfl

/-- Where a directory of the tree is found, the tree is found. -/
theorem find_source (hns : ns.IsProper) {p : Place}
    (h : t.disk.find t.cwd (t.directory ns) = .ok (p, .dir)) :
    t.disk.find t.cwd (clean t.source) = .ok (t.root, .dir) := by
  obtain ⟨q, hq⟩ := find_upward hns.names List.nil_prefix h
  have hroot : t.disk.find t.cwd (t.directory []) = .ok (q, .dir) := hq
  rw [directory_nil] at hroot
  rw [hroot, (Disk.find_ok hroot).1]
  rfl

/-- A directory of the tree that is found, and is not inside `.git`, is one of those that a search of
the whole tree looks at. -/
theorem mem_directories (hns : ns.IsProper) (hgit : ".git" ∉ ns) {p : Place}
    (h : t.disk.find t.cwd (t.directory ns) = .ok (p, .dir)) :
    Path.text ⟨0, ns⟩ ∈ (directories t.disk t.cwd (clean t.source)).items := by
  have hup : ∀ m, m <+: ns → t.disk.node? (t.root ++ m) = some .dir := by
    intro m hm
    obtain ⟨q, hq⟩ := find_upward hns.names hm h
    obtain ⟨hplace, hnode⟩ := Disk.find_ok hq
    rw [hplace] at hnode
    exact directory_place (t := t) (fun n hn => hns n (hm.subset hn)) ▸ hnode
  refine (mem_items (find_source hns h)).2 ?_
  rcases eq_or_ne ns [] with rfl | hne
  · exact .inl rfl
  · refine .inr ⟨ns, ?_, fun hl => hgit (List.mem_of_getLast? hl),
      (Path.inner_eq hns.names hne).symm, Disk.isDir_iff.2 ⟨p, h⟩⟩
    refine List.mem_filterMap.2 ⟨_, Disk.node_of_lookup (hup ns (List.prefix_refl _))
      (List.append_ne_nil_of_right_ne_nil _ hne), ?_⟩
    have hlen := List.length_pos_iff.2 hne
    have henter : ns.dropLast.all (fun n => decide (n ≠ ".git")) = true := by
      refine List.all_eq_true.2 fun n hn => decide_eq_true ?_
      rintro rfl
      exact hgit (List.dropLast_subset ns hn)
    have hdirs : (List.range ns.length).all
        (fun i => t.disk.isDirAt (t.root ++ ns.take i)) = true :=
      List.all_eq_true.2 fun i _ => Disk.isDirAt_iff.2 (hup _ (List.take_prefix i ns))
    have hpre : t.root.isPrefixOf (t.root ++ ns) = true :=
      List.isPrefixOf_iff_prefix.2 (List.prefix_append _ _)
    simp only [hpre, List.length_append, List.drop_left, henter, hdirs]
    simp [hlen]

end Places

end Tree

/-- Directories that were all read to their ends are held as a whole. -/
theorem insertDirs_complete {t : Tree} {i : Index} {dirs : List String}
    (h : i.source = clean t.source)
    (hi : ∀ dir ∈ i.dirs, ∀ e ∈ (t.counted dir).edges, e ∈ i.edges)
    (hs : (i.insertDirs t.disk t.cwd dirs).stop = none) :
    ∀ dir, dir ∈ dirs ∨ dir ∈ i.dirs → ∀ e ∈ (t.counted dir).edges,
      e ∈ (i.insertDirs t.disk t.cwd dirs).index.edges := by
  induction dirs generalizing i with
  | nil => exact fun dir hdir => hi dir (hdir.resolve_left List.not_mem_nil)
  | cons dir dirs ih =>
    rw [Index.insertDirs] at hs ⊢
    split at hs
    · next hsome =>
      rw [hs] at hsome
      cases hsome
    · next hnone =>
      rw [if_neg hnone]
      intro x hx
      have hone : (i.insertDir Contribution.isRecordName t.disk t.cwd dir).index.source =
          clean t.source := (insertDir_added h dir).source
      have hkeeps : ∀ x, x = dir ∨ x ∈ i.dirs →
          x ∈ (i.insertDir Contribution.isRecordName t.disk t.cwd dir).index.dirs ∧
            ∀ e ∈ (t.counted x).edges,
              e ∈ (i.insertDir Contribution.isRecordName t.disk t.cwd dir).index.edges := by
        intro x hx
        rw [Index.insertDir]
        split
        · next hmem =>
          have hxi : x ∈ i.dirs := hx.elim (fun heq => heq ▸ hmem) id
          exact ⟨hxi, hi x hxi⟩
        · simp only [h]
          refine ⟨List.mem_cons.2 hx, fun e he => Index.mem_added.2 ?_⟩
          rcases hx with rfl | hx
          · exact .inl he
          · exact .inr (hi x hx e he)
      refine ih hone (fun x hx => ?_) hs x ?_
      · exact (hkeeps x ((insertDir_added h dir).dirs x hx)).2
      · rcases hx with hx | hx
        · rcases List.mem_cons.1 hx with rfl | hx
          · exact .inr (hkeeps x (.inl rfl)).1
          · exact .inl hx
        · exact .inr (hkeeps x (.inr hx)).1

/-- An index of the whole tree that was read to its end holds all that is listed. -/
theorem whole_complete {t : Tree} (hs : t.whole.stop = none) {a b : String}
    (h : t.Listed a b) : ⟨a, b⟩ ∈ t.whole.index.edges := by
  obtain ⟨ns, name, hns, hname, hgit, he⟩ := h
  obtain ⟨target, text, htarget, -, htext, -⟩ := Contribution.edge_of_record he
  obtain ⟨f, hfile⟩ := Disk.readText_find htext
  have hmem := Tree.mem_directories hns hgit
    (Disk.find_above (text_under _ _) hname.toIsName hfile)
  have hcounted : ⟨a, b⟩ ∈ (t.counted (Path.text ⟨0, ns⟩)).edges :=
    Contribution.directory_complete hname id (whole_ended hs _ hmem) he
  rw [Tree.whole, Index.addTree] at hs ⊢
  split at hs
  · next hsome =>
    rw [hs] at hsome
    cases hsome
  · next hnone =>
    rw [if_neg hnone]
    exact insertDirs_complete rfl (fun _ hdir => absurd hdir List.not_mem_nil)
      (Option.not_isSome_iff_eq_none.1 hnone) _ (.inl hmem) _ hcounted

end Kbuild

end Hotpatch
