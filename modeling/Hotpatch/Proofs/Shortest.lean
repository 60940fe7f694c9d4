import Mathlib.Data.List.Induction
import Hotpatch.Proofs.Disk

/-! The path of a place, as it is written from the root, is the shortest one: what any other path
from the root leads to is found by it as well. -/

namespace Hotpatch

theorem intercalate_sublist {α : Type} (sep : List α) {as bs : List (List α)}
    (h : List.Sublist as bs) : List.Sublist (sep.intercalate as) (sep.intercalate bs) := by
  induction h with
  | slnil => exact List.Sublist.refl _
  | @cons as bs b h ih =>
    rcases bs with _ | ⟨b', bs⟩
    · rw [List.sublist_nil.1 h]
      exact List.nil_sublist _
    · rw [List.intercalate_cons_cons]
      exact ih.trans (List.sublist_append_right _ _)
  | @cons_cons as bs a h ih =>
    rcases bs with _ | ⟨b, bs⟩
    · rw [List.sublist_nil.1 h]
    · rcases as with _ | ⟨a', as⟩
      · rw [List.intercalate_singleton, List.intercalate_cons_cons, List.append_assoc]
        exact List.sublist_append_left _ _
      · rw [List.intercalate_cons_cons, List.intercalate_cons_cons]
        exact (List.Sublist.refl _).append ih

theorem utf8ByteSize_sublist {s t : String} (h : List.Sublist s.toList t.toList) :
    s.utf8ByteSize ≤ t.utf8ByteSize := by
  have sized : ∀ as bs : List Char, as.Sublist bs →
      (String.ofList as).utf8ByteSize ≤ (String.ofList bs).utf8ByteSize := by
    intro as bs hab
    induction hab with
    | slnil => exact Nat.le_refl _
    | cons c _ ih =>
      rw [String.ofList_cons, String.utf8ByteSize_append]
      omega
    | cons_cons c _ ih =>
      rw [String.ofList_cons, String.ofList_cons, String.utf8ByteSize_append,
        String.utf8ByteSize_append]
      omega
  have := sized _ _ h
  rwa [String.ofList_toList, String.ofList_toList] at this

namespace Place

variable {ns : List String}

/-- Names that are followed from a place lead to some of them. -/
theorem along_sublist (here : Place) (ns : List String) :
    List.Sublist (along here ns) (here ++ ns) := by
  induction ns generalizing here with
  | nil => simp [along]
  | cons n ns ih =>
    have hnext : List.Sublist (next here n) (here ++ [n]) := by
      unfold next
      split
      · exact (List.dropLast_sublist here).trans (List.sublist_append_left _ _)
      · exact List.Sublist.refl _
    have happ := hnext.append (List.Sublist.refl ns)
    rw [List.append_assoc, List.singleton_append] at happ
    exact (ih (next here n)).trans happ

/-- Fewer components make a path of fewer characters. -/
theorem toList_text_mono {k l : Nat} {as bs : List String} (hk : Path.chars ⟨k, as⟩ ≠ [])
    (hkl : k ≤ l) (h : List.Sublist as bs) :
    List.Sublist (Path.text ⟨k, as⟩).toList (Path.text ⟨l, bs⟩).toList := by
  have hparts := intercalate_sublist ['/'] (h.map String.toList)
  have hslashes : List.Sublist (List.replicate k '/') (List.replicate l '/') :=
    (List.replicate_sublist_replicate '/').2 hkl
  have hchars : List.Sublist (Path.chars ⟨k, as⟩) (Path.chars ⟨l, bs⟩) := hslashes.append hparts
  have hl : Path.chars ⟨l, bs⟩ ≠ [] := fun hnil => hk (List.sublist_nil.1 (hnil ▸ hchars))
  rwa [Path.toList_text, Path.toList_text, if_neg hk, if_neg hl]

/-- A path from the root has all the characters of its place's own path. -/
theorem toList_text_sublist {s : String} (hs : (Path.ofText s).text = s)
    (habs : isAbsolute s = true) (cwd : Place) :
    List.Sublist (of cwd s).text.toList s.toList := by
  have hk := slashes_ne_zero habs
  have hplace : List.Sublist (of cwd s) (Path.ofText s).parts := by
    rw [of, if_neg hk]
    exact along_sublist [] _
  have hsub := toList_text_mono (by simp [Path.chars]) (by omega : 1 ≤ (Path.ofText s).slashes) hplace
  rwa [← text_eq, hs] at hsub

end Place

namespace Disk

variable {d : Disk} {cwd p q : Place} {s t : String}

/-- A path whose characters are some of those of an acceptable one is acceptable. -/
theorem acceptable_sublist (ht : acceptable t = .ok ()) (h : List.Sublist s.toList t.toList)
    (hs : s ≠ "") : acceptable s = .ok () := by
  obtain ⟨-, hz, hn⟩ := (acceptable_iff t).1 ht
  exact (acceptable_iff s).2 ⟨hs, fun hm => hz (h.subset hm), Nat.le_trans (utf8ByteSize_sublist h) hn⟩

/-- Every name of a place can be followed from the root. -/
structure Leads (d : Disk) (p : Place) : Prop where
  dirs : ∀ m, m <+: p → m ≠ p → d.isDirAt m = true
  short : ∀ n ∈ p, n.utf8ByteSize ≤ longestName

theorem Leads.step {n : String} (h : d.Leads p) (hs : d.step p n = .ok q) : d.Leads q := by
  obtain ⟨hdir, hn, rfl⟩ := step_ok hs
  unfold Place.next
  split
  · refine ⟨fun m hm hne => h.dirs m (hm.trans (List.dropLast_prefix p)) fun heq => hne ?_,
      fun n hn => h.short n (List.dropLast_subset p hn)⟩
    rw [heq] at hm ⊢
    exact hm.eq_of_length_le (List.dropLast_prefix p).length_le
  · refine ⟨fun m hm hne => ?_, fun k hk => ?_⟩
    · rcases List.prefix_concat_iff.1 hm with rfl | hm
      · exact absurd rfl hne
      · by_cases heq : m = p
        · rwa [heq]
        · exact h.dirs m hm heq
    · rcases List.mem_append.1 hk with hk | hk
      · exact h.short k hk
      · rwa [List.mem_singleton.1 hk]

theorem Leads.steps {ns : List String} (h : d.Leads p) (hs : ns.foldlM d.step p = .ok q) :
    d.Leads q := by
  induction ns generalizing p with
  | nil =>
    cases hs
    exact h
  | cons n ns ih =>
    rw [List.foldlM_cons] at hs
    rcases hp : d.step p n with e | p'
    · rw [hp] at hs
      cases hs
    · rw [hp] at hs
      exact ih (h.step hp) hs

theorem Leads.follow (h : d.Leads p) (hp : p.IsProper) : p.foldlM d.step [] = .ok p := by
  induction p using List.reverseRecOn with
  | nil => rfl
  | append_singleton p n ih =>
    have hhere : d.isDirAt p = true := h.dirs p (List.prefix_append p [n]) (by simp)
    have hfirst : d.Leads p := by
      refine ⟨fun m hm hne => h.dirs m (hm.trans (List.prefix_append p [n])) ?_, fun k hk =>
        h.short k (List.mem_append_left _ hk)⟩
      rintro rfl
      exact absurd hm.length_le (by simp)
    have hn : n ≠ ".." := (hp n (by simp)).stays
    rw [List.foldlM_append, ih hfirst fun k hk => hp k (List.mem_append_left _ hk)]
    show List.foldlM d.step p [n] = _
    rw [List.foldlM_cons, step_dir hhere (h.short n (by simp)), Place.next, if_neg hn]
    rfl

/-- What a path from the root leads to is found by the path of its place, if this one doesn't end
like that of a directory. -/
theorem find_text {n : Node} (hs : (Path.ofText s).text = s) (habs : isAbsolute s = true)
    (h : d.find cwd s = .ok (p, n)) {cs : List Char} {c : Char} (hc : p.text.toList = cs ++ [c])
    (hslash : '/' ≠ c) (hdot : '.' ≠ c) : d.find cwd p.text = .ok (p, n) := by
  obtain ⟨hlocate, hnode⟩ := find_locate h
  obtain ⟨hok, hsteps, -⟩ := reach_ok (locate_reach hlocate)
  have hp : p = Place.of cwd s := locate_of hlocate
  have hproper : p.IsProper := by
    rw [hp, Place.of, if_neg (slashes_ne_zero habs)]
    exact Place.along_proper (by simp [Place.IsProper]) (Path.ofText_proper s).parts
  rw [if_neg (slashes_ne_zero habs)] at hsteps
  have hroot : d.Leads [] := ⟨fun m hm hne => absurd (List.prefix_nil.1 hm) hne, by simp⟩
  have hfollow := (hroot.steps hsteps).follow hproper
  have hsub := Place.toList_text_sublist hs habs cwd
  rw [← hp] at hsub
  have hne : p.text ≠ "" := fun h => by simp [h] at hc
  have hnodot : Text.ends "/." p.text = false := ends_of_last hc hdot ['/'] rfl
  have hnoslash : Text.ends "/" p.text = false := ends_of_last hc hslash [] rfl
  have hreach : d.reach cwd p.text = .ok p := by
    rw [reach, acceptable_sublist hok hsub hne, Place.ofText_text hproper]
    simp only [bind, Except.bind, hnodot]
    rw [if_neg (by omega), hfollow]
    rfl
  rw [find, locate, hreach]
  simp only [bind, Except.bind, hnoslash, Bool.false_eq_true, if_false, pure, Except.pure, hnode]

theorem readText_text {text : String} (hs : (Path.ofText s).text = s)
    (habs : isAbsolute s = true) (h : d.readText cwd s = .ok text) {cs : List Char} {c : Char}
    (hc : (Place.of cwd s).text.toList = cs ++ [c]) (hslash : '/' ≠ c) (hdot : '.' ≠ c) :
    d.readText cwd (Place.of cwd s).text = .ok text := by
  rcases ho : d.open? cwd s with e | f
  · rw [readText, read, ho] at h
    cases h
  · have hfind := find_text hs habs (open?_ok ho) hc hslash hdot
    rw [readText, read, open?, hfind]
    rw [readText, read, ho] at h
    exact h

theorem locate_dir (hok : acceptable s = .ok ())
    (hsteps : (Path.ofText s).parts.foldlM d.step (if (Path.ofText s).slashes = 0 then cwd else []) =
      .ok p) (hdir : d.isDirAt p = true) : d.find cwd s = .ok (p, .dir) := by
  have hdot : d.step p "." = .ok (p.next ".") := step_dir hdir (by decide)
  have hreach : d.reach cwd s = .ok p := by
    rw [reach, hok]
    simp only [bind, Except.bind, hsteps, hdot]
    split <;> rfl
  have hlocate : d.locate cwd s = .ok p := by
    rw [locate, hreach]
    simp only [bind, Except.bind, hdot]
    split <;> rfl
  rw [find, hlocate]
  simp only [bind, Except.bind, isDirAt_iff.1 hdir]
  rfl

/-- Where something is found, its directory is found. -/
theorem find_above {a name : String} {n : Node} (ha : (Path.ofText a).text = a)
    (hname : Path.IsName name) (h : d.find cwd (under a name) = .ok (p, n)) :
    d.find cwd a = .ok (Place.of cwd a, .dir) := by
  have hunder : under a name =
      Path.text ⟨(Path.ofText a).slashes, (Path.ofText a).parts ++ [name]⟩ := by
    rw [← text_under, ofText_under (isAbsolute_name hname), parts_ofText_name hname]
  obtain ⟨hok, hsteps, -⟩ := reach_ok (locate_reach (find_locate h).1)
  have hshort : acceptable a = .ok () := by
    by_cases hnil : (Path.ofText a).chars = []
    · -- the working directory itself
      have hdot : a = "." := by
        rw [← ha, ← String.toList_inj, Path.toList_text, if_pos hnil]
        rfl
      rw [hdot]
      rfl
    · have hsub : List.Sublist (Path.ofText a).text.toList (under a name).toList := by
        rw [hunder]
        exact Place.toList_text_mono hnil (Nat.le_refl _) (List.sublist_append_left _ [name])
      rw [ha] at hsub
      refine acceptable_sublist hok hsub fun hempty => hnil ?_
      rw [hempty]
      rfl
  rw [ofText_under (isAbsolute_name hname), parts_ofText_name hname, List.foldlM_append] at hsteps
  dsimp only at hsteps
  rcases hhere : (Path.ofText a).parts.foldlM d.step
      (if (Path.ofText a).slashes = 0 then cwd else []) with e | here
  · rw [hhere] at hsteps
    cases hsteps
  · have hplace : here = Place.of cwd a := foldlM_step_ok hhere
    rw [hhere] at hsteps
    replace hsteps : [name].foldlM d.step here = .ok p := hsteps
    rw [List.foldlM_cons] at hsteps
    rcases hstep : d.step here name with e | q
    · rw [hstep] at hsteps
      cases hsteps
    · rw [← hplace]
      exact locate_dir hshort hhere (step_ok hstep).1

end Disk

end Hotpatch
