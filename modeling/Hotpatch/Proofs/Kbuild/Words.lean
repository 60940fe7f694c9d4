import Hotpatch.Proofs.Text
import Hotpatch.Proofs.Kbuild.Inner

/-! How a command names objects. A path in normal form is one word of a command, in full or, where it
lies in the directory of the target, by its last name; either is taken for that path again. -/

namespace Hotpatch

theorem Text.after?_append (as bs : List Char) : Text.after? as (as ++ bs) = some bs := by
  induction as with
  | nil => rfl
  | cons a as ih => rw [List.cons_append, Text.after?, if_pos rfl, ih]

theorem Text.after?_some {as cs bs : List Char} (h : Text.after? as cs = some bs) :
    cs = as ++ bs := by
  induction as generalizing cs with
  | nil =>
    cases h
    rfl
  | cons a as ih =>
    cases cs with
    | nil => cases h
    | cons c cs =>
      rw [Text.after?] at h
      split at h
      · next hac => rw [ih h, ← hac, List.cons_append]
      · cases h

/-- An ending without slashes is one of the last name. -/
theorem Text.ends_of_slash {suf s n : String} {as : List Char} (hs : s.toList = as ++ '/' :: n.toList)
    (hsuf : '/' ∉ suf.toList) : Text.ends suf s = Text.ends suf n := by
  rw [Bool.eq_iff_iff, Text.ends, Text.ends, List.isSuffixOf_iff_suffix, List.isSuffixOf_iff_suffix, hs]
  constructor
  · intro h
    have hlast : '/' :: n.toList <:+ as ++ '/' :: n.toList := List.suffix_append _ _
    rcases List.suffix_or_suffix_of_suffix h hlast with h | h
    · rcases List.suffix_cons_iff.1 h with heq | h
      · exact absurd (heq ▸ List.mem_cons_self) hsuf
      · exact h
    · exact absurd (h.subset List.mem_cons_self) hsuf
  · exact fun h => (h.trans (List.suffix_cons '/' _)).trans (List.suffix_append _ _)

theorem Path.toList_concat {ns : Place} {n : String} (h : ∀ m ∈ ns ++ [n], IsName m) (hne : ns ≠ []) :
    (text ⟨0, ns ++ [n]⟩).toList = ['/'].intercalate (ns.map String.toList) ++ '/' :: n.toList := by
  rw [inner_eq h (by simp), String.toList_intercalate, slash_toList, intercalate_concat n hne]

theorem basename_of_whole {s : String} (h : '/' ∉ s.toList) : basename s = s := by
  rw [basename, Text.cutLast?, Text.cut?_of_not_mem (by simpa using h)]
  rfl

theorem basename_of_slash {s n : String} {as : List Char} (hs : s.toList = as ++ '/' :: n.toList)
    (hn : '/' ∉ n.toList) : basename s = n := by
  rw [basename, Text.cutLast?, hs, List.reverse_append, List.reverse_cons, List.append_assoc,
    List.singleton_append, Text.cut?_append _ (by simpa using hn)]
  simp

theorem basename_inner {ns : Place} {n : String} (h : ∀ m ∈ ns ++ [n], Path.IsName m) :
    basename (Path.text ⟨0, ns ++ [n]⟩) = n := by
  have hn : Path.IsName n := h n (by simp)
  rcases eq_or_ne ns [] with rfl | hne
  · rw [List.nil_append, Path.inner_eq (by simpa using hn) (by simp), String.intercalate_singleton,
      basename_of_whole hn.whole]
  · exact basename_of_slash (Path.toList_concat h hne) hn.whole

namespace Kbuild

/-- A path from the tree in normal form that is one word of a command, and that is taken neither for an
option nor for a response file, wherever it is cut. -/
structure Nameable (s : String) : Prop where
  normal : normalize s = s
  relative : isAbsolute s = false
  whole : ∀ c ∈ s.toList, isSeparator c = false
  plain : ∀ n ∈ (Path.ofText s).parts, n.toList.head? ≠ some '-' ∧ n.toList.head? ≠ some '@'

instance (s : String) : Decidable (Nameable s) :=
  decidable_of_iff (normalize s = s ∧ isAbsolute s = false ∧
      (∀ c ∈ s.toList, isSeparator c = false) ∧
      ∀ n ∈ (Path.ofText s).parts, n.toList.head? ≠ some '-' ∧ n.toList.head? ≠ some '@')
    ⟨fun h => ⟨h.1, h.2.1, h.2.2.1, h.2.2.2⟩, fun h => ⟨h.normal, h.relative, h.whole, h.plain⟩⟩

section Nameable

variable {s t dir : String}

/-- Such a path leads so many steps up, and then down. -/
theorem Nameable.shape (h : Nameable s) : ∃ k ts, Place.IsProper ts ∧
    s = Path.text ⟨0, List.replicate k ".." ++ ts⟩ := by
  obtain ⟨k, ts, hshape, hstays, -⟩ := Path.collapse_shape (Path.ofText s).parts
  refine ⟨k, ts, fun n hn => ⟨?_, hstays n hn⟩, ?_⟩
  · have hmem : n ∈ Path.collapse false (Path.ofText s).parts :=
      hshape ▸ List.mem_append_right _ hn
    exact (Path.ofText_proper s).parts n (Path.mem_collapse hmem)
  · have hnormal := h.normal
    rw [normalize, slashes_eq_zero h.relative, show decide (0 ≠ 0) = false from rfl, hshape] at hnormal
    exact hnormal.symm

/-- It begins with a name that is followed by a slash or by nothing. -/
theorem Nameable.first (h : Nameable s) (hpart : isPart s = true) : ∃ n rest,
    n ∈ (Path.ofText s).parts ∧ Path.IsName n ∧ s.toList = n.toList ++ rest ∧
      (rest = [] ∨ ∃ r, rest = '/' :: r) := by
  obtain ⟨k, ts, hts, hs⟩ := h.shape
  have hnames := names_outward hts (k := k)
  have hparts : (Path.ofText s).parts = List.replicate k ".." ++ ts := by
    rw [hs, Path.ofText_inner hnames]
  generalize List.replicate k ".." ++ ts = ns at hs hnames hparts
  rcases ns with _ | ⟨n, ns⟩
  · rw [hs] at hpart
    exact absurd hpart (by decide)
  · rw [Path.inner_eq hnames (by simp)] at hs
    have hchars : s.toList = ['/'].intercalate ((n :: ns).map String.toList) := by
      rw [hs, String.toList_intercalate]
      rfl
    rw [hparts]
    cases ns with
    | nil => exact ⟨n, [], by simp, hnames n (by simp), by simpa using hchars, .inl rfl⟩
    | cons m ms =>
      refine ⟨n, '/' :: ['/'].intercalate ((m :: ms).map String.toList), by simp, hnames n (by simp),
        ?_, .inr ⟨_, rfl⟩⟩
      rw [hchars, List.map_cons, List.map_cons, List.intercalate_cons_cons, List.append_assoc]
      rfl

theorem Nameable.head (h : Nameable s) (hpart : isPart s = true) :
    s.toList.head? ≠ some '-' ∧ s.toList.head? ≠ some '@' := by
  obtain ⟨n, rest, hn, hname, hs, -⟩ := h.first hpart
  have hhead : s.toList.head? = n.toList.head? := by
    rw [hs, List.head?_append_of_ne_nil _ fun hnil => hname.filled (String.toList_eq_nil_iff.1 hnil)]
  rw [hhead]
  exact h.plain n hn

/-- What a word without needless dots before it stands for. -/
theorem resolve_eq (h : Text.after? "./".toList s.toList = none) (dir : String) : resolve s dir =
    if s.toList.contains '/' || dir = "" then normalize s else normalize (glue dir s) := by
  rw [resolve, h]
  simp only [Option.getD_none, String.ofList_toList]

/-- Written in full, a path is taken for itself. -/
theorem Nameable.resolve_full (h : Nameable s) (hpart : isPart s = true)
    (hfull : '/' ∈ s.toList ∨ dir = "") : resolve s dir = s := by
  have hdots : Text.after? "./".toList s.toList = none := by
    rw [Option.eq_none_iff_forall_ne_some]
    intro r hr
    obtain ⟨n, rest, -, hname, hs, hrest⟩ := h.first hpart
    have heq := (Text.after?_some hr).symm.trans hs
    obtain ⟨c, cs, hn⟩ := List.exists_cons_of_ne_nil
      fun hnil => hname.filled (String.toList_eq_nil_iff.1 hnil)
    rw [hn] at heq
    have hdot : '.' = c := (List.cons.inj heq).1
    have htail : '/' :: r = cs ++ rest := (List.cons.inj heq).2
    cases cs with
    | nil => exact hname.moves (String.toList_inj.1 (by rw [hn, ← hdot]; rfl))
    | cons d ds =>
      refine hname.whole ?_
      rw [hn, ← (List.cons.inj htail).1]
      simp
  rw [resolve_eq hdots, if_pos (by simpa using hfull), h.normal]

/-- What lies in the directory of something inside the tree: the names above it, and its own. -/
theorem Nameable.beside (h : Nameable s) (hpart : isPart s = true) (ht : IsInner t)
    (hdir : dirname s = dirname t) : ∃ ns n, Place.IsProper (ns ++ [n]) ∧
      s = Path.text ⟨0, ns ++ [n]⟩ ∧ dirname t = "/".intercalate ns := by
  obtain ⟨k, ts, hts, hs⟩ := h.shape
  obtain ⟨ms, hms, hne, rfl⟩ := inner_of_dirname ht hts hs hpart hdir
  rcases List.eq_nil_or_concat ms with rfl | ⟨ns, n, rfl⟩
  · exact absurd rfl hne
  · rw [List.concat_eq_append] at hms hdir ⊢
    refine ⟨ns, n, hms, rfl, ?_⟩
    rw [← hdir, dirname_inner hms.names, List.dropLast_concat]

theorem intercalate_ne_empty {ns : Place} (h : ∀ n ∈ ns, Path.IsName n) (hne : ns ≠ []) :
    "/".intercalate ns ≠ "" := by
  rw [← Path.inner_eq h hne]
  exact Path.text_ne_empty _

theorem normalize_glue {ns : Place} {n : String} (h : Place.IsProper (ns ++ [n])) :
    normalize (glue ("/".intercalate ns) n) = Path.text ⟨0, ns ++ [n]⟩ := by
  have hns : ∀ m ∈ ns, Path.IsName m := fun m hm => h.names m (List.mem_append_left _ hm)
  have hn : Path.IsName n := h.names n (by simp)
  rw [normalize, ofText_glue (isAbsolute_name hn), parts_ofText_intercalate hns, parts_ofText_name hn,
    slashes_eq_zero (isAbsolute_intercalate hns)]
  dsimp only
  rw [Path.collapse_of_entries _ fun m hm => (h m hm).stays]

/-- A bare name is taken for the path in the target's directory. -/
theorem resolve_bare {ns : Place} {n : String} (h : Place.IsProper (ns ++ [n])) :
    resolve n ("/".intercalate ns) = Path.text ⟨0, ns ++ [n]⟩ := by
  have hns : ∀ m ∈ ns, Path.IsName m := fun m hm => h.names m (List.mem_append_left _ hm)
  have hn : Path.IsName n := h.names n (by simp)
  have hdots : Text.after? "./".toList n.toList = none := by
    rw [Option.eq_none_iff_forall_ne_some]
    intro r hr
    refine hn.whole ?_
    rw [Text.after?_some hr]
    simp
  rw [resolve_eq hdots]
  rcases eq_or_ne ns [] with rfl | hne
  · have hglue := normalize_glue h
    have hempty : glue ("/".intercalate []) n = n := by
      rw [glue, if_neg (by simp [isAbsolute_name hn])]
      simp
    rw [hempty] at hglue
    rw [if_pos (by simp), hglue]
  · rw [if_neg (by simp [hn.whole, intercalate_ne_empty hns hne]), normalize_glue h]

theorem isPart_concat {ns : Place} {n : String} (h : ∀ m ∈ ns ++ [n], Path.IsName m) :
    isPart (Path.text ⟨0, ns ++ [n]⟩) = isPart n := by
  rcases eq_or_ne ns [] with rfl | hne
  · rw [List.nil_append, Path.inner_eq (by simpa using h) (by simp), String.intercalate_singleton]
  · have hchars := Path.toList_concat h hne
    rw [isPart, isPart, Text.ends_of_slash hchars (by decide), Text.ends_of_slash hchars (by decide),
      Text.ends_of_slash hchars (by decide)]

end Nameable

end Kbuild

end Hotpatch
