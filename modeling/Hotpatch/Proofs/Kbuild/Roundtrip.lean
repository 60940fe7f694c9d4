import Hotpatch.Proofs.Kbuild.Rules

/-! What is read from the records of a tree that were written for the rules of a build: an index of the
tree is read to its end, and holds the inputs of every rule and nothing else. -/

namespace Hotpatch

theorem Disk.readText_encoded {d : Disk} {cwd : Place} {s text : String}
    (h : d.read cwd s = .ok (Text.encode text)) (hr : '\r' ∉ text.toList) :
    d.readText cwd s = .ok text := by
  rw [readText, h, Except.map, Text.decodeLossy_encode, Text.unify_eq hr, String.ofList_toList]

theorem under_congr {a b : String} (source : String) (ha : isAbsolute a = false)
    (hb : isAbsolute b = false) (h : (Path.ofText a).parts = (Path.ofText b).parts) :
    under source a = under source b := by
  rw [← text_under source a, ← text_under source b, ofText_under ha, ofText_under hb, h]

namespace Kbuild

section Names

variable {cwd : Place} {ns : Place} {n : String}

theorem toList_recordName (n : String) :
    ("." ++ n ++ ".cmd").toList = '.' :: (n.toList ++ ".cmd".toList) := by
  rw [String.toList_append, String.toList_append]
  rfl

theorem isEntry_recordName (hn : Path.IsName n) : IsEntry ("." ++ n ++ ".cmd") := by
  have hchars := toList_recordName n
  have hlong : ∀ s : String, s.toList.length < 5 → "." ++ n ++ ".cmd" ≠ s := by
    rintro s hs rfl
    have hlen : ".cmd".toList.length = 4 := rfl
    rw [hchars, List.length_cons, List.length_append, hlen] at hs
    omega
  refine ⟨⟨hlong "" (by decide), hlong "." (by decide), ?_⟩, hlong ".." (by decide)⟩
  rw [hchars, List.mem_cons, List.mem_append, not_or, not_or]
  exact ⟨by decide, hn.whole, by decide⟩

/-- The record of something in the tree stands beside it. -/
theorem recordOf_inner (h : Place.IsProper (ns ++ [n])) (source : String) :
    recordOf source (Path.text ⟨0, ns ++ [n]⟩) =
      under (under source (Path.text ⟨0, ns⟩)) ("." ++ n ++ ".cmd") := by
  have hns : ∀ m ∈ ns, Path.IsName m := fun m hm => h.names m (List.mem_append_left _ hm)
  have hdir : under source ("/".intercalate ns) = under source (Path.text ⟨0, ns⟩) :=
    under_congr _ (isAbsolute_intercalate hns) (isAbsolute_inner hns)
      (by rw [parts_ofText_intercalate hns, Path.ofText_inner hns])
  rw [recordOf, dirname_inner h.names, basename_inner h.names, List.dropLast_concat, hdir]

theorem recordOf_concat (h : Place.IsProper (ns ++ [n])) (t : Tree) :
    recordOf (clean t.source) (Path.text ⟨0, ns ++ [n]⟩) =
      under (t.directory ns) ("." ++ n ++ ".cmd") :=
  recordOf_inner h (clean t.source)

/-- The target of a record named after some text, put into the way to the record's directory. -/
theorem target?_of_name {f : String} (hname : fileName f = "." ++ n ++ ".cmd") (cwd : Place)
    (source : String) : target? cwd f source =
      some (if relative cwd.text (parent f) source = "." then n
        else normalize (glue (relative cwd.text (parent f) source) n)) := by
  have hchars := toList_recordName n
  have hends : Text.ends ".cmd" ("." ++ n ++ ".cmd") = true := by
    rw [Text.ends, hchars, List.isSuffixOf_iff_suffix]
    exact ⟨'.' :: n.toList, rfl⟩
  have htitle : (n.toList ++ ".cmd".toList).take ((n.toList ++ ".cmd".toList).length - 4) =
      n.toList := by
    have hlen : ".cmd".toList.length = 4 := rfl
    rw [List.length_append, hlen, Nat.add_sub_cancel, List.take_left]
  have hback : String.ofList ('.' :: (n.toList ++ ".cmd".toList)) = "." ++ n ++ ".cmd" := by
    rw [← hchars, String.ofList_toList]
  rw [target?, hname, hchars]
  simp only [hback, hends, if_true, htitle, String.ofList_toList]

/-- The way from the source directory to a place below it. -/
theorem relative_below {s : String} (hc : cwd.IsProper) (hns : ns.IsProper) {source : String}
    (h : Place.of cwd s = Place.of cwd source ++ ns) :
    relative cwd.text s source = Path.text ⟨0, ns⟩ := by
  refine (relative_congr hc source ?_).trans (relative_inner hc hns source)
  rw [h, Place.of_under_inner hns]

/-- The target of a record is what the record stands beside. -/
theorem target?_below {f source : String} (hc : cwd.IsProper) (h : Place.IsProper (ns ++ [n]))
    (hdir : Place.of cwd (parent f) = Place.of cwd source ++ ns)
    (hname : fileName f = "." ++ n ++ ".cmd") :
    target? cwd f source = some (Path.text ⟨0, ns ++ [n]⟩) := by
  have hns : Place.IsProper ns := fun m hm => h m (List.mem_append_left _ hm)
  have hn : IsEntry n := h n (by simp)
  rw [target?_of_name hname, relative_below hc hns hdir, Option.some.injEq]
  rcases eq_or_ne ns [] with rfl | hne
  · rw [if_pos ((Path.inner_eq_dot hns.names).2 rfl), List.nil_append,
      Path.inner_eq (by simpa using hn.toIsName) (by simp), String.intercalate_singleton]
  · rw [if_neg fun hdot => hne ((Path.inner_eq_dot hns.names).1 hdot),
      Path.inner_eq hns.names hne, normalize_glue h]

theorem target?_recordOf (hc : cwd.IsProper) (h : Place.IsProper (ns ++ [n])) (source : String) :
    target? cwd (under (under source (Path.text ⟨0, ns⟩)) ("." ++ n ++ ".cmd")) source =
      some (Path.text ⟨0, ns ++ [n]⟩) := by
  have hns : Place.IsProper ns := fun m hm => h m (List.mem_append_left _ hm)
  have hentry := (isEntry_recordName (h n (by simp)).toIsName).toIsName
  refine target?_below hc h ?_ (fileName_under hentry)
  rw [Place.of_parent hentry, Place.of_under_inner hns]

end Names

namespace Contribution

variable {d : Disk} {cwd : Place} {source file : String}

theorem ofRecord_stop (h : ∀ target text, target? cwd file source = some target → isPart target = true →
    d.readText cwd file = .ok text → (made d cwd source target text).stop = none) :
    (ofRecord d cwd source file).stop = none := by
  unfold ofRecord
  split
  · rfl
  · next target ht =>
    split
    · next hp =>
      split
      · rfl
      · next text hr => exact h target text ht hp hr
    · rfl

end Contribution

section Tree

variable {t : Tree} {ρ : Rule}

/-- A rule's target, taken apart, with its record. -/
theorem Rule.IsProper.place (h : ρ.IsProper) : ∃ ns n, Place.IsProper (ns ++ [n]) ∧ ".git" ∉ ns ∧
    ρ.target = Path.text ⟨0, ns ++ [n]⟩ := by
  obtain ⟨ts, hts, hne, htarget⟩ := h.inner
  rcases List.eq_nil_or_concat ts with rfl | ⟨ns, n, rfl⟩
  · exact absurd rfl hne
  · rw [List.concat_eq_append] at hts htarget
    refine ⟨ns, n, hts, fun hgit => h.plain ?_, htarget⟩
    rw [htarget, Path.ofText_inner hts.names]
    exact List.mem_append_left _ hgit

theorem Rule.Written.readText (h : ρ.IsProper) (hw : ρ.Written t) :
    t.disk.readText t.cwd (recordOf (clean t.source) ρ.target) = .ok ρ.text := by
  have hmem : (recordOf (clean t.source) ρ.target, ρ.text) ∈ ρ.files (clean t.source) := by
    rw [Rule.files]
    exact List.mem_cons_self
  have hread := hw _ hmem
  dsimp only at hread
  exact Disk.readText_encoded hread h.text_whole

/-- The record of a rule gives the inputs that differ from the target. -/
theorem Rule.Written.ofRecord (hc : t.cwd.IsProper) (h : ρ.IsProper) (hw : ρ.Written t) :
    Contribution.ofRecord t.disk t.cwd (clean t.source) (recordOf (clean t.source) ρ.target) =
      ⟨(ρ.paths.filter (· ≠ ρ.target)).map (⟨·, ρ.target⟩), [], none⟩ := by
  obtain ⟨ns, n, hns, -, htarget⟩ := h.place
  have hrecord : target? t.cwd (recordOf (clean t.source) ρ.target) (clean t.source) =
      some ρ.target := by
    rw [htarget, recordOf_concat hns]
    exact target?_recordOf hc hns (clean t.source)
  obtain ⟨is, hinputs, hothers⟩ := hw.named h
  rw [Contribution.ofRecord_made hrecord h.part (hw.readText h), Contribution.made, h.commands,
    ofEach_cons hinputs rfl]
  simp only [Found.all, List.append_nil, hothers]

/-- A file in the tree, outside of `.git` directories, whose name makes it the record of something that
can be linked. -/
def Tree.Record (t : Tree) (file target : String) : Prop :=
  ∃ ns name, Place.IsProper ns ∧ IsEntry name ∧ ".git" ∉ ns ∧ file = under (t.directory ns) name ∧
    t.disk.isFile t.cwd file = true ∧ target? t.cwd file (clean t.source) = some target ∧
      isPart target = true

/-- The directories of a tree that is found are found, and are outside of `.git`. -/
theorem Tree.items_found (hd : t.disk.IsProper) {p : Place}
    (h : t.disk.find t.cwd (clean t.source) = .ok (p, .dir)) {dir : String}
    (hdir : dir ∈ (directories t.disk t.cwd (clean t.source)).items) :
    ∃ ns, Place.IsProper ns ∧ ".git" ∉ ns ∧ dir = Path.text ⟨0, ns⟩ ∧
      ∃ q, t.disk.find t.cwd (t.directory ns) = .ok (q, .dir) := by
  rcases (mem_items h).1 hdir with rfl | ⟨ns, hns, hlast, heq, hopen⟩
  · refine ⟨[], nofun, List.not_mem_nil, rfl, p, ?_⟩
    rw [directory_nil]
    exact h
  · obtain ⟨hne, hproper, henter, -⟩ := beneath_inner hns
    have hdir : dir = Path.text ⟨0, ns⟩ := by
      rw [← heq, Path.inner_eq (hproper hd).names hne]
    rw [hdir] at hopen
    refine ⟨ns, hproper hd, fun hgit => ?_, hdir, Disk.isDir_iff.1 hopen⟩
    have hne : ns ≠ [] := hne
    rw [← List.dropLast_append_getLast hne, List.mem_append, List.mem_singleton] at hgit
    rcases hgit with hgit | hgit
    · exact absurd (henter _ hgit) (by decide)
    · exact hlast (by rw [List.getLast?_eq_some_getLast hne, ← hgit])

theorem insertDirs_stop {i : Index} {dirs : List String} (h : i.source = clean t.source)
    (hs : ∀ dir ∈ dirs, (t.counted dir).stop = none) :
    (i.insertDirs t.disk t.cwd dirs).stop = none := by
  induction dirs generalizing i with
  | nil => rfl
  | cons dir dirs ih =>
    have hone : (i.insertDir Contribution.isRecordName t.disk t.cwd dir).stop = none := by
      rw [Index.insertDir]
      split
      · rfl
      · simp only [h]
        exact hs dir List.mem_cons_self
    rw [Index.insertDirs, if_neg (by simp [hone])]
    exact ih (insertDir_added h dir).source fun x hx => hs x (List.mem_cons_of_mem dir hx)

section Rules

variable {rules : List Rule} {file : String} {e : Edge}

/-- A rule has this edge. -/
def Rule.Gives (ρ : Rule) (e : Edge) : Prop := ρ.target = e.target ∧ e.input ∈ ρ.paths ∧ e.input ≠ e.target

theorem Rule.Written.edges (hc : t.cwd.IsProper) (h : ρ.IsProper) (hw : ρ.Written t) :
    e ∈ (Contribution.ofRecord t.disk t.cwd (clean t.source)
      (recordOf (clean t.source) ρ.target)).edges ↔ ρ.Gives e := by
  rw [hw.ofRecord hc h, List.mem_map]
  constructor
  · rintro ⟨i, hi, rfl⟩
    obtain ⟨hi, hne⟩ := List.mem_filter.1 hi
    exact ⟨rfl, hi, by simpa using hne⟩
  · rintro ⟨htarget, hi, hne⟩
    exact ⟨e.input, List.mem_filter.2 ⟨hi, by simpa [htarget] using hne⟩, by rw [htarget]⟩

/-- Where all records are those of rules, a record that is read gives what its rule says. -/
theorem ofRecord_rules (hc : t.cwd.IsProper) (hrules : ∀ ρ ∈ rules, ρ.IsProper ∧ ρ.Written t)
    (honly : ∀ file target, t.Record file target →
      ∃ ρ ∈ rules, recordOf (clean t.source) ρ.target = file)
    {ns : Place} {name : String} (hns : ns.IsProper) (hgit : ".git" ∉ ns) (hname : IsEntry name) :
    let c := Contribution.ofRecord t.disk t.cwd (clean t.source) (under (t.directory ns) name)
    c.stop = none ∧ ∀ e ∈ c.edges, ∃ ρ ∈ rules, ρ.Gives e := by
  intro c
  have hrule : ∀ target text, target? t.cwd (under (t.directory ns) name) (clean t.source) = some target →
      isPart target = true → t.disk.readText t.cwd (under (t.directory ns) name) = .ok text →
      ∃ ρ ∈ rules, recordOf (clean t.source) ρ.target = under (t.directory ns) name := by
    intro target text ht hp hr
    obtain ⟨f, hf⟩ := Disk.readText_find hr
    have hfile : t.disk.isFile t.cwd (under (t.directory ns) name) = true := by
      rw [Disk.isFile, hf]
    exact honly _ target ⟨ns, name, hns, hname, hgit, rfl, hfile, ht, hp⟩
  constructor
  · refine Contribution.ofRecord_stop fun target text ht hp hr => ?_
    obtain ⟨ρ, hρ, hfile⟩ := hrule target text ht hp hr
    obtain ⟨hproper, hw⟩ := hrules ρ hρ
    rw [← Contribution.ofRecord_made ht hp hr, ← hfile, hw.ofRecord hc hproper]
  · intro e he
    obtain ⟨target, text, ht, hp, hr, -⟩ := Contribution.edge_of_record he
    obtain ⟨ρ, hρ, hfile⟩ := hrule target text ht hp hr
    obtain ⟨hproper, hw⟩ := hrules ρ hρ
    dsimp only [c] at he
    rw [← hfile] at he
    exact ⟨ρ, hρ, (hw.edges hc hproper).1 he⟩

/-- Where all records are those of rules, an index of the whole tree has the edges of the rules. -/
theorem whole_rules (hd : t.disk.IsProper) (hc : t.cwd.IsProper)
    (hsource : t.disk.isDir t.cwd (clean t.source) = true)
    (hrules : ∀ ρ ∈ rules, ρ.IsProper ∧ ρ.Written t)
    (honly : ∀ file target, t.Record file target →
      ∃ ρ ∈ rules, recordOf (clean t.source) ρ.target = file) :
    t.whole.stop = none ∧ ∀ input target, ⟨input, target⟩ ∈ t.whole.index.edges ↔
      ∃ ρ ∈ rules, ρ.target = target ∧ input ∈ ρ.paths ∧ input ≠ target := by
  obtain ⟨p, hp⟩ := Disk.isDir_iff.1 hsource
  have hcounted : ∀ dir ∈ (directories t.disk t.cwd (clean t.source)).items,
      (t.counted dir).stop = none ∧ ∀ e ∈ (t.counted dir).edges, ∃ ρ ∈ rules, ρ.Gives e := by
    intro dir hdir
    obtain ⟨ns, hns, hgit, rfl, q, hq⟩ := Tree.items_found hd hp hdir
    constructor
    · rw [Tree.counted, Contribution.ofDirectory_eq]
      change t.disk.find t.cwd (under (clean t.source) (Path.text ⟨0, ns⟩)) = _ at hq
      rw [hq]
      refine Contribution.join_stop fun c hmem => ?_
      obtain ⟨name, hname, rfl⟩ := List.mem_map.1 hmem
      obtain ⟨x, hx⟩ := Disk.mem_names (List.mem_filter.1 hname).1
      exact (ofRecord_rules hc hrules honly hns hgit (hd _ hx name (by simp))).1
    · intro e he
      obtain ⟨r, name, -, hname, -, he⟩ := Contribution.edge_of_directory he
      obtain ⟨x, hx⟩ := Disk.mem_names hname
      exact (ofRecord_rules hc hrules honly hns hgit (hd _ hx name (by simp))).2 e he
  have hstop : t.whole.stop = none := by
    have hdirs := insertDirs_stop (i := Index.empty t.source) rfl fun dir hdir => (hcounted dir hdir).1
    rw [Tree.whole, Index.addTree, if_neg (by simpa [Index.empty] using hdirs)]
    change (directories t.disk t.cwd (clean t.source)).stop = none
    rw [directories, hp]
    rfl
  refine ⟨hstop, fun input target => ⟨fun he => ?_, ?_⟩⟩
  · obtain ⟨dir, hdir, he⟩ := whole_edges he
    exact (hcounted dir hdir).2 _ he
  · rintro ⟨ρ, hρ, htarget, hi, hne⟩
    obtain ⟨hproper, hw⟩ := hrules ρ hρ
    obtain ⟨ns, n, hns, hgit, heq⟩ := hproper.place
    have hrecord := (hw.edges hc hproper).2 (show ρ.Gives ⟨input, target⟩ from ⟨htarget, hi, hne⟩)
    rw [heq, recordOf_concat hns] at hrecord
    exact whole_complete hstop ⟨ns, _, fun m hm => hns m (List.mem_append_left _ hm),
      isEntry_recordName (hns n (by simp)).toIsName, hgit, hrecord⟩

/-- Every record of a tree stands on the disk. -/
theorem Tree.Record.stands {target : String} {P : String → Prop} (h : t.Record file target)
    (hP : ∀ q ∈ t.disk.nodes,
      let record := under (t.directory (q.1.drop t.root.length).dropLast) (q.1.getLast?.getD "")
      (target? t.cwd record (clean t.source)).any isPart = true → P record) : P file := by
  obtain ⟨ns, name, hns, hname, -, rfl, hfile, htarget, hpart⟩ := h
  obtain ⟨q, f, hfind⟩ := Disk.isFile_iff.1 hfile
  obtain ⟨hplace, hnode⟩ := Disk.find_ok hfind
  rw [Place.of_under_entry hname, directory_place hns] at hplace
  have hne : q ≠ [] := hplace ▸ List.append_ne_nil_of_right_ne_nil _ (by simp)
  have hrecord := hP (q, .file f) (Disk.node_of_lookup hnode hne)
  dsimp only at hrecord
  rw [hplace, List.getLast?_concat, List.append_assoc, List.drop_left, List.dropLast_concat,
    Option.getD_some, htarget] at hrecord
  exact hrecord hpart

end Rules

end Tree

namespace Sample

/-- An archive, an object and a module, made in the three ways. -/
def rules : List Rule :=
  [⟨"d/l.a", [⟨"d/a.o", true⟩, ⟨"d/b.o", true⟩], .archive, false, "d/l.a", [], ["deps"]⟩,
    ⟨"d/m.o", [⟨"d/l.a", false⟩, ⟨"e/c.o", false⟩], .link, true, "d/m.o", ["# made"], []⟩,
    ⟨"d/m.ko", [⟨"d/m.o", true⟩, ⟨"e/c.o", false⟩], .response "d/m.mod" "\n", true, "d/m.ko", [], []⟩]

/-- A tree with the records of these rules. -/
def written : Disk := ⟨[(["w"], .dir), (["w", "l"], .dir), (["w", "l", "d"], .dir),
  (["w", "l", "d", ".l.a.cmd"], file "cmd_d/l.a := rm -f d/l.a; ar cDPrST d/l.a a.o b.o\ndeps\n"),
  (["w", "l", "d", ".m.o.cmd"], file "# made\nsavedcmd_d/m.o := ld -r -o d/m.o d/l.a e/c.o\n"),
  (["w", "l", "d", ".m.ko.cmd"], file "savedcmd_d/m.ko := ld -r -o d/m.ko @d/m.mod\n"),
  (["w", "l", "d", "m.mod"], file "m.o\ne/c.o\n")], 1⟩

def rulesTree : Tree := ⟨written, ["w"], "l"⟩

end Sample

theorem whole_rules_written : (Tree.whole Sample.rulesTree).stop = none ∧
    (⟨"e/c.o", "d/m.ko"⟩ : Edge) ∈ (Tree.whole Sample.rulesTree).index.edges := by
  have hrules : ∀ ρ ∈ Sample.rules, ρ.IsProper ∧ ρ.Written Sample.rulesTree := by decide +kernel
  have h := whole_rules (by decide +kernel) (by decide +kernel) (by decide +kernel) hrules
    fun file target hr => hr.stands (P := fun file => ∃ ρ ∈ Sample.rules,
      recordOf (clean "l") ρ.target = file) (by decide +kernel)
  exact ⟨h.1, (h.2 "e/c.o" "d/m.ko").2 (by decide +kernel)⟩

end Kbuild

end Hotpatch
