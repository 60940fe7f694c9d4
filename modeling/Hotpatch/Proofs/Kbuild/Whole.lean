import Hotpatch.Proofs.Kbuild.Index

/-! The index of the whole tree. Its directories are written without needless parts, with every
directory also those above it; the target of each of its edges lies in one of them, so this one can
be read by itself as well. -/

namespace Hotpatch

namespace Path

/-- The path of names one below the other, without slashes before them. -/
theorem ofText_inner {ns : List String} (h : ∀ n ∈ ns, IsName n) : ofText (text ⟨0, ns⟩) = ⟨0, ns⟩ :=
  ofText_text ⟨by simp, h⟩

theorem toList_inner (ns : Place) : (text ⟨0, ns⟩).toList =
    if ['/'].intercalate (ns.map String.toList) = [] then ['.']
    else ['/'].intercalate (ns.map String.toList) := by
  rw [toList_text]
  rfl

theorem inner_eq_dot {ns : List String} (h : ∀ n ∈ ns, IsName n) : text ⟨0, ns⟩ = "." ↔ ns = [] := by
  refine ⟨fun hdot => ?_, fun hnil => hnil ▸ rfl⟩
  have := ofText_inner h
  rw [hdot] at this
  exact (congrArg parts this).symm

theorem inner_eq {ns : List String} (h : ∀ n ∈ ns, IsName n) (hne : ns ≠ []) :
    text ⟨0, ns⟩ = "/".intercalate ns := by
  have hchars := toList_inner ns
  rw [← String.toList_inj, String.toList_intercalate, hchars, if_neg]
  · rfl
  · intro hnil
    rw [if_pos hnil] at hchars
    exact hne ((inner_eq_dot h).1 (String.toList_inj.1 hchars))

/-- Names pile up on whatever is there. -/
theorem foldl_push_entries (rooted : Bool) {ns : List String} (ds : List String)
    (h : ∀ n ∈ ns, n ≠ "..") : ns.foldl (push rooted) ds = ns.reverse ++ ds := by
  induction ns generalizing ds with
  | nil => rfl
  | cons n ns ih =>
    have hpush : push rooted ds n = n :: ds := by
      have := h n List.mem_cons_self
      cases ds <;> simp [push, this]
    rw [List.foldl_cons, hpush, ih _ fun m hm => h m (List.mem_cons_of_mem _ hm)]
    simp

theorem collapse_of_entries (rooted : Bool) {ns : Place} (h : ∀ n ∈ ns, n ≠ "..") :
    collapse rooted ns = ns := by
  rw [collapse, foldl_push_entries rooted [] h, List.append_nil, List.reverse_reverse]

theorem collapse_back {rooted : Bool} {ns : Place} (h : ∀ n ∈ ns, n ≠ "..") (hne : ns ≠ []) :
    collapse rooted (ns ++ [".."]) = ns.dropLast := by
  obtain ⟨ms, m, rfl⟩ := (List.eq_nil_or_concat ns).resolve_left hne
  have hms := collapse_of_entries rooted h
  rw [collapse, List.reverse_eq_iff] at hms
  have hm : m ≠ ".." := h m (by simp)
  rw [collapse, List.foldl_append, hms]
  simp [push, hm]

end Path

theorem isAbsolute_inner {ns : List String} (h : ∀ n ∈ ns, Path.IsName n) :
    isAbsolute (Path.text ⟨0, ns⟩) = false := by
  rw [← Bool.not_eq_true, isAbsolute_iff_slashes, Path.ofText_inner h]
  simp

theorem Place.of_under_inner {cwd ns : Place} {a : String} (h : ns.IsProper) :
    of cwd (under a (Path.text ⟨0, ns⟩)) = of cwd a ++ ns := by
  rw [of_under (isAbsolute_inner h.names), Path.ofText_inner h.names,
    along_eq_append fun n hn => (h n hn).stays]

theorem normalize_inner {ns : Place} (h : ns.IsProper) :
    normalize (Path.text ⟨0, ns⟩) = Path.text ⟨0, ns⟩ := by
  rw [normalize, Path.ofText_inner h.names]
  dsimp only
  rw [Path.collapse_of_entries _ fun n hn => (h n hn).stays]

theorem normalize_intercalate {ns : Place} (h : ns.IsProper) :
    normalize ("/".intercalate ns) = Path.text ⟨0, ns⟩ := by
  have hnames : ∀ n ∈ ns, Path.IsName n := fun n hn => (h n hn).toIsName
  rw [normalize, parts_ofText_intercalate hnames, slashes_eq_zero (isAbsolute_intercalate hnames),
    Path.collapse_of_entries _ fun n hn => (h n hn).stays]

theorem Text.cut?_of_not_mem {c : Char} {cs : List Char} (h : c ∉ cs) :
    Text.cut? c cs = none := by
  induction cs with
  | nil => rfl
  | cons d ds ih =>
    rw [List.mem_cons, not_or] at h
    rw [Text.cut?, if_neg (Ne.symm h.1), ih h.2]
    rfl

theorem Text.cut?_append {c : Char} {as : List Char} (bs : List Char) (h : c ∉ as) :
    Text.cut? c (as ++ c :: bs) = some (as, bs) := by
  induction as with
  | nil => simp [Text.cut?]
  | cons a as ih =>
    rw [List.mem_cons, not_or] at h
    rw [List.cons_append, Text.cut?, if_neg (Ne.symm h.1), ih h.2]
    rfl

theorem dirname_of_whole {s : String} (h : '/' ∉ s.toList) : dirname s = "" := by
  rw [dirname, Text.cutLast?, Text.cut?_of_not_mem (by simpa using h)]
  rfl

namespace Path

theorem intercalate_concat {ns : List String} (n : String) (hne : ns ≠ []) :
    ['/'].intercalate ((ns ++ [n]).map String.toList) =
      ['/'].intercalate (ns.map String.toList) ++ '/' :: n.toList := by
  induction ns with
  | nil => exact absurd rfl hne
  | cons m ms ih =>
    cases ms with
    | nil => simp [List.intercalate_cons_cons]
    | cons k ks =>
      have ih := ih (by simp)
      simp only [List.cons_append, List.map_cons, List.intercalate_cons_cons] at ih ⊢
      rw [ih]
      simp

/-- Names one below the other don't end in a slash. -/
theorem last_intercalate {ns : List String} (h : ∀ n ∈ ns, IsName n) (hne : ns ≠ []) :
    ∃ cs c, ['/'].intercalate (ns.map String.toList) = cs ++ [c] ∧ c ≠ '/' := by
  obtain ⟨ms, m, rfl⟩ := (List.eq_nil_or_concat ns).resolve_left hne
  have hm : IsName m := h m (by simp)
  obtain ⟨cs, c, hc⟩ := (List.eq_nil_or_concat m.toList).resolve_left
    fun hnil => hm.filled (String.toList_eq_nil_iff.1 hnil)
  have hslash : c ≠ '/' := by
    rintro rfl
    exact hm.whole (by rw [hc]; simp)
  rcases eq_or_ne ms [] with rfl | hms
  · exact ⟨cs, c, by simpa using hc, hslash⟩
  · refine ⟨['/'].intercalate (ms.map String.toList) ++ '/' :: cs, c, ?_, hslash⟩
    rw [List.concat_eq_append, intercalate_concat m hms, hc]
    simp

end Path

/-- The directory of names one below the other. -/
theorem dirname_inner {ns : List String} (h : ∀ n ∈ ns, Path.IsName n) :
    dirname (Path.text ⟨0, ns⟩) = "/".intercalate ns.dropLast := by
  rcases List.eq_nil_or_concat ns with rfl | ⟨ms, m, rfl⟩
  · exact dirname_of_whole (by decide)
  · rw [List.concat_eq_append] at h ⊢
    have hm : Path.IsName m := h m (by simp)
    have hms : ∀ n ∈ ms, Path.IsName n := fun n hn => h n (by simp [hn])
    rw [List.dropLast_concat, Path.inner_eq h (by simp)]
    rcases eq_or_ne ms [] with rfl | hne
    · exact dirname_of_whole (by simpa [String.toList_intercalate] using hm.whole)
    · have hcut : Text.cutLast? '/' ("/".intercalate (ms ++ [m])).toList =
          some (['/'].intercalate (ms.map String.toList), m.toList) := by
        rw [String.toList_intercalate, slash_toList, Path.intercalate_concat m hne, Text.cutLast?,
          List.reverse_append, List.reverse_cons, List.append_assoc, List.singleton_append,
          Text.cut?_append _ (by simpa using hm.whole)]
        simp
      obtain ⟨cs, c, hc, hslash⟩ := Path.last_intercalate hms hne
      rw [dirname, hcut]
      dsimp only
      rw [hc, if_neg (by simp [hslash])]
      rw [← String.toList_inj, String.toList_intercalate, slash_toList, hc]
      simp [hslash]

theorem commonLength_append (as bs : List String) : commonLength (as ++ bs) as = as.length := by
  induction as with
  | nil => cases bs <;> rfl
  | cons a as ih => simp [commonLength, ih]

theorem relative_inner {cwd : Place} {ns : Place} (hc : cwd.IsProper) (h : ns.IsProper)
    (source : String) :
    relative cwd.text (under source (Path.text ⟨0, ns⟩)) source = Path.text ⟨0, ns⟩ := by
  obtain ⟨k, -, hs⟩ := Place.ofText_full hc (under source (Path.text ⟨0, ns⟩))
  obtain ⟨l, -, ht⟩ := Place.ofText_full hc source
  rw [relative, hs, ht]
  dsimp only
  rw [Place.of_under_inner h, commonLength_append, Nat.sub_self, List.drop_left]
  rfl

namespace Kbuild

variable {d : Disk} {cwd : Place} {source name record target : String} {ns : Place} {e : Edge}

theorem isPart_filled {s : String} (h : isPart s = true) : s ≠ "" ∧ s ≠ "." ∧ s ≠ ".." := by
  refine ⟨?_, ?_, ?_⟩ <;> rintro rfl <;> revert h <;> decide

/-- A title that is put into a directory leads into it, to itself, or to the one above. -/
theorem title_inner {title : String} (hns : ns.IsProper) (hne : ns ≠ [])
    (ht : '/' ∉ title.toList) : ∃ ts : Place, ts.IsProper ∧ ts.dropLast <+: ns ∧
      normalize (glue (Path.text ⟨0, ns⟩) title) = Path.text ⟨0, ts⟩ := by
  have hstays : ∀ n ∈ ns, n ≠ ".." := fun n hn => (hns n hn).stays
  have hglue := ofText_glue (a := Path.text ⟨0, ns⟩) (isAbsolute_of_whole ht)
  rw [Path.ofText_inner hns.names] at hglue
  have hnorm : normalize (glue (Path.text ⟨0, ns⟩) title) =
      Path.text ⟨0, Path.collapse false (ns ++ (Path.ofText title).parts)⟩ := by
    rw [normalize, hglue]
    rfl
  rw [hnorm]
  rcases parts_of_whole ht with hparts | hparts
  · rw [hparts, List.append_nil, Path.collapse_of_entries _ hstays]
    exact ⟨ns, hns, List.dropLast_prefix ns, rfl⟩
  · rw [hparts]
    by_cases hup : title = ".."
    · rw [hup, Path.collapse_back hstays hne]
      exact ⟨ns.dropLast, fun n hn => hns n (List.dropLast_subset ns hn),
        (List.dropLast_prefix _).trans (List.dropLast_prefix ns), rfl⟩
    · have hname : Path.IsName title := (Path.ofText_proper title).parts title (by simp [hparts])
      have hproper : Place.IsProper (ns ++ [title]) := by
        intro n hn
        rcases List.mem_append.1 hn with hn | hn
        · exact hns n hn
        · rw [List.mem_singleton.1 hn]
          exact ⟨hname, hup⟩
      rw [Path.collapse_of_entries _ fun n hn => (hproper n hn).stays]
      have hlast : (ns ++ [title]).dropLast <+: ns :=
        ⟨[], by rw [List.append_nil, List.dropLast_concat]⟩
      exact ⟨ns ++ [title], hproper, hlast, rfl⟩

/-- The target of a record is named by the record's title, from the directory of the record. -/
theorem title_of_target (hwhole : '/' ∉ (fileName record).toList)
    (ht : target? cwd record source = some target) : ∃ title : String, '/' ∉ title.toList ∧
      target = if relative cwd.text (parent record) source = "." then title
        else normalize (glue (relative cwd.text (parent record) source) title) := by
  rw [target?] at ht
  dsimp only at ht
  split at ht
  · next rest hname =>
    split at ht
    · refine ⟨_, fun hm => hwhole ?_, (Option.some.inj ht).symm⟩
      rw [String.toList_ofList] at hm
      rw [hname]
      exact List.mem_cons_of_mem _ (List.mem_of_mem_take hm)
    · cases ht
  · cases ht

/-- The target of a record lies in the record's own directory, or in one above it. -/
theorem target_inner (hc : cwd.IsProper) (hns : ns.IsProper) (hn : IsEntry name)
    (ht : target? cwd (under (under source (Path.text ⟨0, ns⟩)) name) source = some target)
    (hp : isPart target = true) :
    ∃ ts : Place, ts.IsProper ∧ ts.dropLast <+: ns ∧ target = Path.text ⟨0, ts⟩ := by
  have hdir : relative cwd.text
      (parent (under (under source (Path.text ⟨0, ns⟩)) name)) source = Path.text ⟨0, ns⟩ :=
    (relative_congr hc source (Place.of_parent hn.toIsName)).trans (relative_inner hc hns source)
  have hname : '/' ∉ (fileName (under (under source (Path.text ⟨0, ns⟩)) name)).toList := by
    rw [fileName_under hn.toIsName]
    exact hn.whole
  obtain ⟨title, hwhole, ht⟩ := title_of_target hname ht
  rw [hdir] at ht
  by_cases hnil : ns = []
  · rw [if_pos ((Path.inner_eq_dot hns.names).2 hnil)] at ht
    obtain ⟨h₁, h₂, h₃⟩ := isPart_filled hp
    have hentry : IsEntry target := ⟨⟨h₁, h₂, ht ▸ hwhole⟩, h₃⟩
    have hproper : Place.IsProper [target] := by simpa [Place.IsProper] using hentry
    refine ⟨[target], hproper, by simp, ?_⟩
    rw [Path.inner_eq hproper.names (by simp), String.intercalate_singleton]
  · rw [if_neg fun h => hnil ((Path.inner_eq_dot hns.names).1 h)] at ht
    obtain ⟨ts, hts, hpre, heq⟩ := title_inner hns hnil hwhole
    exact ⟨ts, hts, hpre, ht ▸ heq⟩

/-- Below a place, every directory is met that leads to something that is met. -/
theorem beneath_inner {enter : String → Bool} {p : Place} {r : Place × Node}
    (h : r ∈ d.beneath enter p) : r.1 ≠ [] ∧ (d.IsProper → r.1.IsProper) ∧
      (∀ n ∈ r.1.dropLast, enter n = true) ∧
      ∀ m, m <+: r.1 → m ≠ r.1 → m ≠ [] → (m, Node.dir) ∈ d.beneath enter p := by
  obtain ⟨hmem, hne, henter, hdirs⟩ := Disk.mem_beneath.1 h
  refine ⟨hne, fun hd n hn => hd _ hmem n (List.mem_append_right _ hn), henter, ?_⟩
  intro m hm hmr hnil
  have hdir := hdirs m hm hmr
  have hnode : (p ++ m, Node.dir) ∈ d.nodes := by
    rw [Disk.isDirAt_iff, Disk.node?, if_neg (by simp [hnil])] at hdir
    obtain ⟨as, bs, hnodes, -⟩ := List.lookup_eq_some_iff.1 hdir
    rw [hnodes]
    exact List.mem_append_right _ List.mem_cons_self
  refine Disk.mem_beneath.2 ⟨hnode, hnil, fun n hn => henter n ?_, fun k hk hkm => ?_⟩
  · obtain ⟨s, hs⟩ := hm
    rw [← hs, List.dropLast_append_of_ne_nil fun h => hmr (by simpa [h] using hs)]
    exact List.mem_append_left _ (List.dropLast_subset m hn)
  · refine hdirs k (hk.trans hm) ?_
    rintro rfl
    exact hkm (hk.eq_of_length (Nat.le_antisymm hk.length_le hm.length_le))

/-- Names one below the other are followed one at a time. -/
theorem under_concat (source : String) (h : ∀ n ∈ ns ++ [name], Path.IsName n) :
    under source (Path.text ⟨0, ns ++ [name]⟩) =
      under (under source (Path.text ⟨0, ns⟩)) name := by
  have hinit : ∀ n ∈ ns, Path.IsName n := fun n hn => h n (List.mem_append_left _ hn)
  have hname : Path.IsName name := h name (by simp)
  rw [← text_under, ofText_under (isAbsolute_inner h), ← text_under (under _ _),
    ofText_under (isAbsolute_name hname), ofText_under (isAbsolute_inner hinit),
    parts_ofText_name hname, Path.ofText_inner h, Path.ofText_inner hinit, List.append_assoc]

/-- On the way to a directory that is found, every directory is found. -/
theorem find_upward {m : Place} {p : Place} (h : ∀ n ∈ ns, Path.IsName n) (hm : m <+: ns)
    (hfind : d.find cwd (under source (Path.text ⟨0, ns⟩)) = .ok (p, .dir)) :
    ∃ q, d.find cwd (under source (Path.text ⟨0, m⟩)) = .ok (q, .dir) := by
  induction ns using List.reverseRecOn generalizing p with
  | nil =>
    rw [List.prefix_nil.1 hm]
    exact ⟨p, hfind⟩
  | append_singleton ns name ih =>
    rcases List.prefix_concat_iff.1 hm with rfl | hm
    · exact ⟨p, hfind⟩
    · rw [under_concat source h] at hfind
      exact ih (fun n hn => h n (List.mem_append_left _ hn)) hm
        (Disk.find_above (text_under _ _) (h name (by simp)) hfind)

theorem mem_items {dir : String} {p : Place} (h : d.find cwd source = .ok (p, .dir)) :
    dir ∈ (directories d cwd source).items ↔ dir = "." ∨
      ∃ ns, (ns, Node.dir) ∈ d.beneath (· ≠ ".git") p ∧ ns.getLast? ≠ some ".git" ∧
        "/".intercalate ns = dir ∧ d.isDir cwd (under source dir) = true := by
  rw [directories, h]
  dsimp only [Found.all]
  rw [List.mem_cons, List.mem_filter, List.mem_map, ← exists_and_right]
  refine or_congr Iff.rfl (exists_congr fun ns => ?_)
  rw [mem_sortBy, List.mem_filterMap, and_assoc, ← and_assoc (a := (ns, Node.dir) ∈ _)]
  refine and_congr_left fun _ => ⟨?_, ?_⟩
  · rintro ⟨⟨m, x⟩, hm, hns⟩
    split at hns
    · next hdir =>
      simp only [Bool.and_eq_true, decide_eq_true_eq] at hdir
      cases hns
      exact ⟨hdir.1 ▸ hm, hdir.2⟩
    · cases hns
  · rintro ⟨hm, hlast⟩
    exact ⟨_, hm, by simp [hlast]⟩

theorem directories_inner {dir : String} (hd : d.IsProper)
    (h : dir ∈ (directories d cwd source).items) : ∃ ns : Place, ns.IsProper ∧
      dir = Path.text ⟨0, ns⟩ ∧
        ∀ m, m <+: ns → Path.text ⟨0, m⟩ ∈ (directories d cwd source).items := by
  have hfind : ∃ p, d.find cwd source = .ok (p, .dir) := by
    rw [directories] at h
    split at h
    · next p hp => exact ⟨p, hp⟩
    · cases h
    · cases h
  obtain ⟨p, hp⟩ := hfind
  rcases (mem_items hp).1 h with rfl | ⟨r, hr, -, hdir, hopen⟩
  · refine ⟨[], by simp [Place.IsProper], rfl, fun m hm => ?_⟩
    rw [List.prefix_nil.1 hm]
    exact h
  · obtain ⟨hne, hproper, henter, hway⟩ := beneath_inner hr
    have hnames := (hproper hd).names
    have hinner : dir = Path.text ⟨0, r⟩ := by rw [← hdir, Path.inner_eq hnames hne]
    refine ⟨r, hproper hd, hinner, fun m hm => ?_⟩
    by_cases heq : m = r
    · rwa [heq, ← hinner]
    by_cases hnil : m = []
    · rw [hnil]
      exact (mem_items hp).2 (.inl rfl)
    · have hm' : ∀ n ∈ m, Path.IsName n := fun n hn => hnames n (hm.subset hn)
      obtain ⟨q, hq⟩ := Disk.isDir_iff.1 hopen
      rw [hinner] at hq
      have habove := Disk.isDir_iff.2 (find_upward hnames hm hq)
      rw [Path.inner_eq hm' hnil] at habove ⊢
      refine (mem_items hp).2 (.inr ⟨m, hway m hm heq hnil, fun hl => ?_, rfl, habove⟩)
      have hmem : ".git" ∈ r.dropLast := by
        obtain ⟨s, hs⟩ := hm
        rw [← hs, List.dropLast_append_of_ne_nil fun h => heq (by simpa [h] using hs)]
        exact List.mem_append_left _ (List.mem_of_getLast? hl)
      exact absurd (henter _ hmem) (by decide)

namespace Tree

/-- What the records of one directory say where the whole tree is added. -/
def counted (t : Tree) (dir : String) : Contribution :=
  .ofDirectory Contribution.isRecordName t.disk t.cwd (clean t.source) dir

end Tree

section Whole

variable {t : Tree} {i : Index} {dirs : List String}

/-- What adding one directory changes. -/
structure Added (t : Tree) (i : Index) (dir : String) (g : Growth) : Prop where
  source : g.index.source = clean t.source
  edges : ∀ e ∈ g.index.edges, e ∈ i.edges ∨ e ∈ (t.counted dir).edges
  dirs : ∀ x ∈ g.index.dirs, x = dir ∨ x ∈ i.dirs
  ended : g.stop = none → dir ∈ i.dirs ∨ (t.counted dir).stop = none

theorem insertDir_added (h : i.source = clean t.source) (dir : String) :
    Added t i dir (i.insertDir Contribution.isRecordName t.disk t.cwd dir) := by
  rw [Index.insertDir]
  split
  · next hm => exact ⟨h, fun e he => .inl he, fun x hx => .inr hx, fun _ => .inl hm⟩
  · simp only [h]
    refine ⟨rfl, fun e he => ?_, fun x hx => List.mem_cons.1 hx, fun hs => .inr ?_⟩
    · dsimp only at he
      exact (Index.mem_added.1 he).symm
    · dsimp only at hs
      exact hs

theorem insertDirs_edges (h : i.source = clean t.source) :
    ∀ e ∈ (i.insertDirs t.disk t.cwd dirs).index.edges,
      e ∈ i.edges ∨ ∃ dir ∈ dirs, e ∈ (t.counted dir).edges := by
  induction dirs generalizing i with
  | nil => exact fun e he => .inl he
  | cons dir dirs ih =>
    have hone := insertDir_added h dir
    intro e he
    have hsplit : e ∈ (i.insertDir Contribution.isRecordName t.disk t.cwd dir).index.edges ∨
        ∃ dir' ∈ dirs, e ∈ (t.counted dir').edges := by
      rw [Index.insertDirs] at he
      split at he
      · exact .inl he
      · exact ih hone.source e he
    rcases hsplit with he | ⟨dir', hm, he⟩
    · refine (hone.edges e he).imp_right fun he => ⟨dir, List.mem_cons_self, he⟩
    · exact .inr ⟨dir', List.mem_cons_of_mem _ hm, he⟩

theorem insertDirs_ended (h : i.source = clean t.source)
    (hi : ∀ dir ∈ i.dirs, (t.counted dir).stop = none)
    (hs : (i.insertDirs t.disk t.cwd dirs).stop = none) :
    ∀ dir ∈ dirs, (t.counted dir).stop = none := by
  induction dirs generalizing i with
  | nil => nofun
  | cons dir dirs ih =>
    have hone := insertDir_added h dir
    rw [Index.insertDirs] at hs
    split at hs
    · next hsome =>
      rw [hs] at hsome
      cases hsome
    · next hnone =>
      have hdir : (t.counted dir).stop = none := by
        rcases hone.ended (by simpa using hnone) with hm | hstop
        · exact hi dir hm
        · exact hstop
      have hrest := ih hone.source (fun x hx => (hone.dirs x hx).elim (· ▸ hdir) (hi x)) hs
      intro x hx
      rcases List.mem_cons.1 hx with rfl | hx
      · exact hdir
      · exact hrest x hx

theorem whole_edges {e : Edge} (h : e ∈ t.whole.index.edges) :
    ∃ dir ∈ (directories t.disk t.cwd (clean t.source)).items, e ∈ (t.counted dir).edges := by
  have hsplit : e ∈ ((Index.empty t.source).insertDirs t.disk t.cwd
      (directories t.disk t.cwd (clean t.source)).items).index.edges := by
    rw [Tree.whole, Index.addTree] at h
    split at h
    · exact h
    · exact h
  exact (insertDirs_edges rfl e hsplit).resolve_left nofun

theorem whole_ended (h : t.whole.stop = none) :
    ∀ dir ∈ (directories t.disk t.cwd (clean t.source)).items, (t.counted dir).stop = none := by
  refine insertDirs_ended (i := Index.empty t.source) rfl nofun ?_
  rw [Tree.whole, Index.addTree] at h
  split at h
  · exact h
  · next hnone => exact Option.not_isSome_iff_eq_none.1 hnone

/-- Once the whole tree was read to its end, the directory of a target can be read by itself. -/
theorem said_ended (ht : t.IsProper) (h : t.whole.stop = none) {object p : String}
    (hp : p ∈ t.parentsAll object) : (t.said (normalize (dirname p))).stop = none := by
  obtain ⟨dir, hdir, he⟩ := whole_edges (Index.mem_parents.1 hp)
  obtain ⟨ns, hns, rfl, hway⟩ := directories_inner ht.disk hdir
  obtain ⟨q, n, hfind, hn, -, he⟩ := Contribution.edge_of_directory he
  obtain ⟨x, hx⟩ := Disk.mem_names hn
  have hentry : IsEntry n := ht.disk _ hx n (by simp)
  obtain ⟨target, text, htarget, hpart, -, he⟩ := Contribution.edge_of_record he
  have heq : p = target := Contribution.made_target he
  obtain ⟨ts, hts, hpre, hinner⟩ := target_inner ht.cwd hns hentry htarget hpart
  have hup : Place.IsProper ts.dropLast := fun m hm => hns m (hpre.subset hm)
  rw [heq, hinner, dirname_inner hts.names, normalize_intercalate hup]
  exact Contribution.ofDirectory_stop (fun _ => Contribution.isRecordName_of_full)
    (whole_ended h _ (hway _ hpre))

end Whole

end Kbuild

end Hotpatch
