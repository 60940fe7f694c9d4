import Hotpatch.Kbuild.Index
import Hotpatch.Proofs.Shortest

/-! What records contribute, wherever they stand and by whatever path they are read: the target of a
record follows from its place, and so do the edges it gives. -/

namespace Hotpatch

theorem isAbsolute_iff_slashes (s : String) :
    isAbsolute s = true ↔ (Path.ofText s).slashes ≠ 0 := by
  refine ⟨slashes_ne_zero, fun h => ?_⟩
  by_contra hs
  exact h (slashes_eq_zero (by simpa using hs))

theorem isAbsolute_clean {s : String} (hs : isAbsolute s = true) : isAbsolute (clean s) = true := by
  rw [isAbsolute_iff_slashes, ofText_clean]
  exact slashes_ne_zero hs

theorem isAbsolute_under {a : String} (b : String) (ha : isAbsolute a = true) :
    isAbsolute (under a b) = true := by
  rw [isAbsolute_iff_slashes]
  by_cases hb : isAbsolute b = true
  · rw [under, ofText_clean, glue, if_pos hb]
    exact slashes_ne_zero hb
  · rw [ofText_under (by simpa using hb)]
    exact slashes_ne_zero ha

namespace Place

variable {cwd p : Place}

theorem of_text (hp : p.IsProper) : of cwd p.text = p := by
  rw [of, ofText_text hp]
  dsimp only
  rw [if_neg (by decide), along_eq_append fun n hn => (hp n hn).stays, List.nil_append]

end Place

theorem fileName_text {p : Place} {n : String} (hp : Place.IsProper (p ++ [n])) :
    fileName (Place.text (p ++ [n])) = n := by
  rw [fileName, Place.ofText_text hp]
  simp

theorem parent_text {p : Place} {n : String} (hp : Place.IsProper (p ++ [n])) :
    parent (Place.text (p ++ [n])) = p.text := by
  rw [parent, Place.ofText_text hp, Place.text_eq]
  simp

/-- The way from one place to another doesn't depend on how they are named. -/
theorem relative_congr {cwd : Place} (hc : cwd.IsProper) {s t : String} (start : String)
    (h : Place.of cwd s = Place.of cwd t) :
    relative cwd.text s start = relative cwd.text t start := by
  obtain ⟨k, -, hs⟩ := Place.ofText_full hc s
  obtain ⟨l, -, ht⟩ := Place.ofText_full hc t
  rw [relative, relative, hs, ht, h]

namespace Kbuild

variable {d : Disk} {cwd : Place} {source dir path name : String} {taken : String → Bool} {e : Edge}

namespace Contribution

theorem isRecordName_of_full (h : isFullRecordName name = true) : isRecordName name = true := by
  rw [isFullRecordName, Bool.and_eq_true] at h
  exact h.2

theorem last_of_record (h : isRecordName name = true) : ∃ cs, name.toList = cs ++ ['d'] := by
  rw [isRecordName, Bool.and_eq_true, Text.ends, List.isSuffixOf_iff_suffix] at h
  obtain ⟨-, as, has⟩ := h
  exact ⟨as ++ ".cm".toList, by rw [← has, List.append_assoc]; rfl⟩

theorem edges_join {cs : List Contribution} (h : e ∈ (join cs).edges) : ∃ c ∈ cs, e ∈ c.edges := by
  induction cs with
  | nil => cases h
  | cons c cs ih =>
    rw [join, List.foldr_cons, append] at h
    split at h
    · exact ⟨c, List.mem_cons_self, h⟩
    · rcases List.mem_append.1 h with h | h
      · exact ⟨c, List.mem_cons_self, h⟩
      · obtain ⟨c', hc', he⟩ := ih h
        exact ⟨c', List.mem_cons_of_mem _ hc', he⟩

theorem stop_join {cs : List Contribution} (h : (join cs).stop = none) : ∀ c ∈ cs, c.stop = none := by
  induction cs with
  | nil => nofun
  | cons c cs ih =>
    rw [join, List.foldr_cons, append] at h
    split at h
    · next hc =>
      rw [h] at hc
      cases hc
    · next hc =>
      intro c' hc'
      rcases List.mem_cons.1 hc' with rfl | hc'
      · simpa using hc
      · exact ih h c' hc'

theorem join_stop {cs : List Contribution} (h : ∀ c ∈ cs, c.stop = none) : (join cs).stop = none := by
  induction cs with
  | nil => rfl
  | cons c cs ih =>
    rw [join, List.foldr_cons, append, if_neg (by simp [h c List.mem_cons_self])]
    exact ih fun c' hc' => h c' (List.mem_cons_of_mem _ hc')

/-- The records that are taken in the directory found at a path. -/
def taking (taken : String → Bool) (d : Disk) (cwd : Place) (source path : String) (p : Place) :
    List Contribution :=
  ((d.names p).filter taken).map fun n => ofRecord d cwd source (under path n)

theorem ofDirectory_eq (taken : String → Bool) (d : Disk) (cwd : Place) (source dir : String) :
    ofDirectory taken d cwd source dir =
      match d.find cwd (under source dir) with
      | .ok (p, .dir) => join (taking taken d cwd source (under source dir) p)
      | .error .nameTooLong => ⟨[], [], some (.failed .nameTooLong (under source dir))⟩
      | _ => nothing := by
  unfold ofDirectory
  generalize under source dir = path
  dsimp only
  rcases d.find cwd path with r | ⟨p, n⟩
  · cases r <;> rfl
  · cases n <;> rfl

/-- An edge of a directory is that of a record in it. -/
theorem edge_of_directory (h : e ∈ (ofDirectory taken d cwd source dir).edges) :
    ∃ p n, d.find cwd (under source dir) = .ok (p, .dir) ∧ n ∈ d.names p ∧ taken n = true ∧
      e ∈ (ofRecord d cwd source (under (under source dir) n)).edges := by
  rw [ofDirectory_eq] at h
  generalize under source dir = path at h ⊢
  split at h
  · next p hp =>
    obtain ⟨c, hc, he⟩ := edges_join h
    obtain ⟨n, hn, rfl⟩ := List.mem_map.1 hc
    obtain ⟨hn, ht⟩ := List.mem_filter.1 hn
    exact ⟨p, n, hp, hn, ht, he⟩
  · cases h
  · cases h

/-- A directory that can be read with the one kind of names can be read with fewer. -/
theorem ofDirectory_stop {taken' : String → Bool} (ht : ∀ n, taken' n = true → taken n = true)
    (h : (ofDirectory taken d cwd source dir).stop = none) :
    (ofDirectory taken' d cwd source dir).stop = none := by
  rw [ofDirectory_eq] at h ⊢
  generalize under source dir = path at h ⊢
  split at h
  · refine join_stop fun c hc => ?_
    obtain ⟨n, hn, rfl⟩ := List.mem_map.1 hc
    obtain ⟨hn, htn⟩ := List.mem_filter.1 hn
    exact stop_join h _ (List.mem_map.2 ⟨n, List.mem_filter.2 ⟨hn, ht n htn⟩, rfl⟩)
  · cases h
  · rfl

end Contribution

/-- The target of a record follows from its place. -/
theorem target?_text (hc : cwd.IsProper) (hn : IsEntry name) (source : String) :
    target? cwd (under path name) source =
      target? cwd (Place.text (Place.of cwd path ++ [name])) source := by
  have hp : Place.IsProper (Place.of cwd path ++ [name]) := by
    intro m hm
    rcases List.mem_append.1 hm with hm | hm
    · exact Place.of_proper hc path m hm
    · rwa [List.mem_singleton.1 hm]
  have hparent : Place.of cwd (parent (under path name)) =
      Place.of cwd (parent (Place.text (Place.of cwd path ++ [name]))) := by
    rw [Place.of_parent hn.toIsName, parent_text hp, Place.of_text (Place.of_proper hc path)]
  rw [target?, target?, fileName_under hn.toIsName, fileName_text hp,
    relative_congr hc source hparent]

namespace Contribution

/-- What the text of a target's record contributes. -/
def made (d : Disk) (cwd : Place) (source target text : String) : Contribution :=
  let ins := Found.ofEach (inputs d cwd source (dirname target)) (commands text)
  ⟨(ins.items.filter (· ≠ target)).map (⟨·, target⟩), [], ins.stop⟩

variable {file target text : String}

theorem ofRecord_made (ht : target? cwd file source = some target) (hp : isPart target = true)
    (hr : d.readText cwd file = .ok text) :
    ofRecord d cwd source file = made d cwd source target text := by
  unfold ofRecord
  rw [ht]
  dsimp only
  rw [if_pos hp, hr]
  rfl

theorem edge_of_record (h : e ∈ (ofRecord d cwd source file).edges) :
    ∃ target text, target? cwd file source = some target ∧ isPart target = true ∧
      d.readText cwd file = .ok text ∧ e ∈ (made d cwd source target text).edges := by
  rcases ht : target? cwd file source with _ | target
  · unfold ofRecord at h
    rw [ht] at h
    cases h
  · rcases hr : d.readText cwd file with r | text
    · unfold ofRecord at h
      rw [ht] at h
      dsimp only at h
      rw [hr] at h
      split at h <;> cases h
    · by_cases hp : isPart target = true
      · rw [ofRecord_made ht hp hr] at h
        exact ⟨target, text, rfl, hp, rfl, h⟩
      · unfold ofRecord at h
        rw [ht] at h
        dsimp only at h
        rw [if_neg hp] at h
        cases h

theorem made_target (h : e ∈ (made d cwd source target text).edges) : e.target = target := by
  obtain ⟨i, -, rfl⟩ := List.mem_map.1 h
  rfl

end Contribution

/-- However a directory is named, its records give the edges that their places give. -/
theorem ofRecord_text (hc : cwd.IsProper) (habs : isAbsolute path = true) (hn : IsEntry name)
    (hr : Contribution.isRecordName name = true)
    (h : e ∈ (Contribution.ofRecord d cwd source (under path name)).edges) :
    e ∈ (Contribution.ofRecord d cwd source
      (Place.text (Place.of cwd path ++ [name]))).edges := by
  have hplace : Place.of cwd (under path name) = Place.of cwd path ++ [name] :=
    Place.of_under_entry hn
  obtain ⟨cs, hcs⟩ := Contribution.last_of_record hr
  have hlast : ∃ cs, (Place.text (Place.of cwd path ++ [name])).toList = cs ++ ['d'] := by
    obtain ⟨base, hbase⟩ := Path.toList_text_append 1 (Place.of cwd path)
    refine ⟨base ++ cs, ?_⟩
    rw [Place.text_eq, hbase [name] (by simp) (by simpa using hn.toIsName)]
    simpa using hcs
  obtain ⟨bs, hbs⟩ := hlast
  rw [← hplace] at hbs ⊢
  obtain ⟨target, text, ht, hp, htext, he⟩ := Contribution.edge_of_record h
  have hplain := Disk.readText_text (text_under path name) (isAbsolute_under name habs) htext
    hbs (by decide) (by decide)
  rw [target?_text hc hn, ← hplace] at ht
  rw [Contribution.ofRecord_made ht hp hplain]
  exact he

/-- Every edge that a directory gives is that of a record somewhere in the file tree. -/
theorem edge_of_node (hd : d.IsProper) (hc : cwd.IsProper) (habs : isAbsolute source = true)
    (ht : ∀ n, taken n = true → Contribution.isRecordName n = true)
    (h : e ∈ (Contribution.ofDirectory taken d cwd source dir).edges) :
    ∃ q ∈ d.nodes, e ∈ (Contribution.ofRecord d cwd source q.1.text).edges := by
  obtain ⟨p, n, hfind, hn, htn, he⟩ := Contribution.edge_of_directory h
  obtain ⟨x, hx⟩ := Disk.mem_names hn
  have hp : p = Place.of cwd (under source dir) := (Disk.find_ok hfind).1
  have hentry : IsEntry n := hd _ hx n (by simp)
  refine ⟨(p ++ [n], x), hx, ?_⟩
  rw [hp]
  exact ofRecord_text hc (isAbsolute_under dir habs) hentry (ht n htn) he

end Kbuild

end Hotpatch
