import Mathlib.Data.List.Nodup
import Hotpatch.Build.Differential
import Hotpatch.Proofs.Disk

/-! What a snapshot of the compiled objects shows: each of them once, named by the way that leads to it
in the tree, with the digest of its content. Against a snapshot taken before, it tells the objects that
differ and those that are new; they are listed by their paths in order. -/

namespace Hotpatch

theorem lookup_iff_mem {β : Type} {α : Type} [BEq α] [LawfulBEq α] {l : List (α × β)}
    (h : (l.map Prod.fst).Nodup) {a : α} {b : β} : l.lookup a = some b ↔ (a, b) ∈ l := by
  induction l with
  | nil => simp
  | cons x l ih =>
    obtain ⟨k, v⟩ := x
    obtain ⟨hk, hl⟩ := List.nodup_cons.1 h
    rw [List.lookup_cons, List.mem_cons]
    by_cases hak : a = k
    · subst hak
      have hout : (a, b) ∉ l := fun hm => hk (List.mem_map.2 ⟨_, hm, rfl⟩)
      simp [hout, eq_comm]
    · rw [beq_false_of_ne hak, ih hl]
      simp [hak]

namespace Disk

/-- A file tree that has every place once, by real names. -/
structure IsSound (d : Disk) : Prop where
  proper : d.IsProper
  places : (d.nodes.map Prod.fst).Nodup

instance (d : Disk) : Decidable d.IsSound :=
  decidable_of_iff (d.IsProper ∧ (d.nodes.map Prod.fst).Nodup)
    ⟨fun h => ⟨h.1, h.2⟩, fun h => ⟨h.proper, h.places⟩⟩

variable {d : Disk} {p q : Place} {n x : Node} {enter : String → Bool}

theorem IsSound.put (hd : d.IsSound) (hp : p.IsProper) (n : Node) : (d.put p n).IsSound := by
  refine ⟨hd.proper.put hp n, List.nodup_cons.2 ⟨fun hm => ?_, ?_⟩⟩
  · obtain ⟨q, hq, heq⟩ := List.mem_map.1 hm
    exact of_decide_eq_true (List.mem_filter.1 hq).2 heq
  · exact hd.places.sublist (List.filter_sublist.map _)

theorem IsSound.store {c : Bytes} {t : Int} (hd : d.IsSound) (hp : p.IsProper) :
    (d.store p c t).IsSound :=
  let h := hd.put hp _
  ⟨h.proper, h.places⟩

theorem IsSound.node_of_mem (hd : d.IsSound) (h : (q, x) ∈ d.nodes) (hq : q ≠ []) :
    d.node? q = some x := by
  rw [node?, if_neg hq]
  exact (lookup_iff_mem hd.places).2 h

theorem IsSound.append (hd : d.IsSound) (p : Place) (serial : Nat) (c : Bytes) :
    (d.append p serial c).IsSound := by
  rcases append_cases d p serial c with h | ⟨f, hf, h⟩
  · rwa [h]
  · rw [h]
    refine hd.store fun m hm => ?_
    have hnode := file?_eq_some.1 hf
    have hp : p ≠ [] := by
      rintro rfl
      rw [node?_nil] at hnode
      cases hnode
    rw [node?, if_neg hp] at hnode
    exact hd.proper _ ((lookup_iff_mem hd.places).1 hnode) m hm

/-- What is met below a place stands there, and is reached through directories. -/
theorem IsSound.beneath (hd : d.IsSound) {r : Place × Node} (h : r ∈ d.beneath enter p) :
    r.1 ≠ [] ∧ r.1.IsProper ∧ d.node? (p ++ r.1) = some r.2 ∧
      ∀ m, m <+: r.1 → m ≠ r.1 → d.isDirAt (p ++ m) = true := by
  obtain ⟨hmem, hne, -, hdirs⟩ := mem_beneath.1 h
  exact ⟨hne, fun n hn => hd.proper _ hmem n (List.mem_append_right _ hn),
    hd.node_of_mem hmem (List.append_ne_nil_of_right_ne_nil _ hne), hdirs⟩

theorem IsSound.beneath_nodup (hd : d.IsSound) (enter : String → Bool) (p : Place) :
    ((d.beneath enter p).map Prod.fst).Nodup := by
  have hplaces := List.pairwise_map.1 hd.places
  refine List.pairwise_map.2 (hplaces.filterMap _ ?_)
  rintro ⟨q, x⟩ ⟨q', x'⟩ hne r hr r' hr'
  split at hr
  · next hpre =>
    split at hr'
    · next hpre' =>
      dsimp only at hr hr' hne
      split at hr <;> cases hr
      split at hr' <;> cases hr'
      simp only [Bool.and_eq_true, List.isPrefixOf_iff_prefix] at hpre hpre'
      obtain ⟨⟨s, rfl⟩, -⟩ := hpre
      obtain ⟨⟨s', rfl⟩, -⟩ := hpre'
      rw [List.drop_left, List.drop_left]
      exact fun heq : s = s' => hne (by rw [heq])
    · cases hr'
  · cases hr

end Disk

/-- Paths of files in one tree, written by the names that lead there; no file is on the way to
another. -/
structure Files (ps : List String) : Prop where
  proper : ∀ p ∈ ps, Place.IsProper (Path.ofText p).parts
  filled : ∀ p ∈ ps, (Path.ofText p).parts ≠ []
  written : ∀ p ∈ ps, "/".intercalate (Path.ofText p).parts = p
  free : ∀ p ∈ ps, ∀ q ∈ ps, (Path.ofText p).parts <+: (Path.ofText q).parts → p = q

section Files

variable {ps : List String} {cwd : Place} {a p : String} (hf : Files ps) (hp : p ∈ ps)
include hf hp

theorem Files.relative : isAbsolute p = false := by
  rw [← hf.written p hp]
  exact isAbsolute_intercalate (hf.proper p hp).names

theorem Files.of_under : Place.of cwd (under a p) = Place.of cwd a ++ (Path.ofText p).parts := by
  have h : Place.of cwd (under a ("/".intercalate (Path.ofText p).parts)) = _ :=
    Place.of_under_entries (hf.proper p hp)
  rwa [hf.written p hp] at h

theorem Files.of_target {x : String} (hx : IsEntry x) :
    Place.of cwd (under (under a x) p) = Place.of cwd a ++ x :: (Path.ofText p).parts := by
  rw [hf.of_under hp, Place.of_under_entry hx, List.append_assoc]
  rfl

end Files

namespace Fingerprints

variable {d : Disk} {cwd : Place} {tree path digest p : String} {B P : Fingerprints}

theorem ofTree_eq (h : ofTree d cwd tree = .ok P) : P = [] ∨
    ∃ enter, P = (d.beneath enter (Place.of cwd (clean tree))).filterMap
      (fingerprintAt? d cwd tree) := by
  rw [ofTree] at h
  split at h
  · next place hp =>
    rw [(Disk.find_ok hp).1] at h
    exact .inr ⟨_, (Except.ok.inj h).symm⟩
  · cases h
  · exact .inl (Except.ok.inj h).symm

theorem way_of_mem (hd : d.IsSound) (h : ofTree d cwd tree = .ok P) (hm : (path, digest) ∈ P) :
    ∃ ns f, Place.IsProper ns ∧ ns ≠ [] ∧ path = "/".intercalate ns ∧
      d.file? (Place.of cwd (clean tree) ++ ns) = some f ∧ digest = Digest.Sha2.sha256 f.content ∧
        ∀ m, m <+: ns → m ≠ ns → d.isDirAt (Place.of cwd (clean tree) ++ m) = true := by
  rcases ofTree_eq h with rfl | ⟨enter, rfl⟩
  · cases hm
  · obtain ⟨⟨ns, x⟩, hr, hx⟩ := List.mem_filterMap.1 hm
    obtain ⟨hne, hproper, hnode, hdirs⟩ := hd.beneath hr
    cases x with
    | dir => cases hx
    | file f =>
      rw [fingerprintAt?] at hx
      split at hx
      · cases hx
        exact ⟨ns, f, hproper, hne, rfl, Disk.file?_eq_some.2 hnode, rfl, hdirs⟩
      · cases hx

/-- A fingerprint is that of a file in the tree. -/
theorem mem_ofTree (hd : d.IsSound) (h : ofTree d cwd tree = .ok P) (hm : (path, digest) ∈ P) :
    ∃ f, d.file? (Place.of cwd (under tree path)) = some f ∧
      digest = Digest.Sha2.sha256 f.content := by
  obtain ⟨ns, f, hproper, -, rfl, hf, hdigest, -⟩ := way_of_mem hd h hm
  rw [Place.of_clean] at hf
  exact ⟨f, by rw [Place.of_under_entries hproper]; exact hf, hdigest⟩

theorem ofTree_files (hd : d.IsSound) (h : ofTree d cwd tree = .ok P) : Files (P.map Prod.fst) := by
  have way : ∀ p ∈ P.map Prod.fst, ∃ ns f, Place.IsProper ns ∧ ns ≠ [] ∧ p = "/".intercalate ns ∧
      (Path.ofText p).parts = ns ∧ d.file? (Place.of cwd (clean tree) ++ ns) = some f ∧
        ∀ m, m <+: ns → m ≠ ns → d.isDirAt (Place.of cwd (clean tree) ++ m) = true := by
    intro p hp
    obtain ⟨⟨path, digest⟩, hm, rfl⟩ := List.mem_map.1 hp
    obtain ⟨ns, f, hproper, hne, hpath, hf, -, hdirs⟩ := way_of_mem hd h hm
    dsimp only
    exact ⟨ns, f, hproper, hne, hpath, by rw [hpath, parts_ofText_intercalate hproper.names], hf, hdirs⟩
  refine ⟨fun p hp => ?_, fun p hp => ?_, fun p hp => ?_, fun p hp q hq hpq => ?_⟩
  · obtain ⟨ns, f, hproper, -, -, hparts, -⟩ := way p hp
    rwa [hparts]
  · obtain ⟨ns, f, -, hne, -, hparts, -⟩ := way p hp
    rwa [hparts]
  · obtain ⟨ns, f, -, -, hpath, hparts, -⟩ := way p hp
    rw [hparts, hpath]
  · obtain ⟨ns, f, -, -, hpath, hparts, hf, -⟩ := way p hp
    obtain ⟨ns', f', -, -, hpath', hparts', -, hdirs⟩ := way q hq
    rw [hparts, hparts'] at hpq
    by_contra hne
    -- A file that another leads through would be a directory.
    have hdir := hdirs ns hpq fun heq => hne (by rw [hpath, hpath', heq])
    rw [Disk.isDirAt_iff, Disk.file?_eq_some.1 hf] at hdir
    cases hdir

/-- Every object has one fingerprint. -/
theorem ofTree_nodup (hd : d.IsSound) (h : ofTree d cwd tree = .ok P) : (P.map Prod.fst).Nodup := by
  rcases ofTree_eq h with rfl | ⟨enter, rfl⟩
  · exact List.nodup_nil
  · have hways := List.pairwise_map.1 (hd.beneath_nodup enter (Place.of cwd (clean tree)))
    have hpaths : (d.beneath enter (Place.of cwd (clean tree))).Pairwise fun r r' =>
        "/".intercalate r.1 ≠ "/".intercalate r'.1 := by
      refine hways.imp_of_mem fun hr hr' hne heq => hne ?_
      have hparts := parts_ofText_intercalate (hd.beneath hr).2.1.names
      rwa [heq, parts_ofText_intercalate (hd.beneath hr').2.1.names, eq_comm] at hparts
    refine List.pairwise_map.2 (hpaths.filterMap _ ?_)
    rintro ⟨ns, x⟩ ⟨ns', x'⟩ hne f hf f' hf'
    cases x with
    | dir => cases hf
    | file g =>
      cases x' with
      | dir => cases hf'
      | file g' =>
        rw [fingerprintAt?] at hf hf'
        split at hf <;> cases hf
        split at hf' <;> cases hf'
        exact hne

section Compare

variable (hP : (P.map Prod.fst).Nodup)
include hP

theorem mem_changed : p ∈ (compare B P).changed ↔
    ∃ x y, B.lookup p = some x ∧ P.lookup p = some y ∧ x ≠ y := by
  simp only [compare, List.mem_mergeSort, List.mem_map, List.mem_filter, lookup_iff_mem hP]
  constructor
  · rintro ⟨⟨q, y⟩, ⟨hm, hdiffers⟩, rfl⟩
    dsimp only at hdiffers
    split at hdiffers
    · next x hx => exact ⟨x, y, hx, hm, by simpa using hdiffers⟩
    · cases hdiffers
  · rintro ⟨x, y, hx, hy, hne⟩
    refine ⟨(p, y), ⟨hy, ?_⟩, rfl⟩
    dsimp only
    rw [hx]
    simpa using hne

theorem mem_new : p ∈ (compare B P).new ↔ B.lookup p = none ∧ ∃ y, P.lookup p = some y := by
  simp only [compare, List.mem_mergeSort, List.mem_map, List.mem_filter, lookup_iff_mem hP]
  constructor
  · rintro ⟨⟨q, y⟩, ⟨hm, hnone⟩, rfl⟩
    exact ⟨by simpa using hnone, y, hm⟩
  · rintro ⟨hnone, y, hy⟩
    exact ⟨(p, y), ⟨hy, by simp [hnone]⟩, rfl⟩

/-- What differs and what is new are apart. -/
theorem compare_nodup (B : Fingerprints) : ((compare B P).changed ++ (compare B P).new).Nodup := by
  have hsome : ∀ f : String × String → Bool, (((P.filter f).map Prod.fst).mergeSort).Nodup := fun f =>
    ((List.mergeSort_perm _ _).nodup_iff).2 (hP.sublist (List.filter_sublist.map _))
  refine List.nodup_append.2 ⟨hsome _, hsome _, fun p hp q hq hpq => ?_⟩
  obtain ⟨x, y, hx, -⟩ := (mem_changed hP).1 hp
  obtain ⟨hnone, -⟩ := (mem_new hP).1 hq
  rw [← hpq, hx] at hnone
  cases hnone

end Compare

end Fingerprints

namespace Differential

variable {c : Fingerprints.Comparison} {o : ChangedObject}

theorem mem_objectsOf : o ∈ objectsOf c ↔
    (o.path ∈ c.changed ∧ o = .fresh o.path false) ∨ o.path ∈ c.new ∧ o = .fresh o.path true := by
  rw [objectsOf, List.mem_mergeSort, List.mem_append, List.mem_map, List.mem_map]
  refine or_congr ⟨?_, ?_⟩ ⟨?_, ?_⟩
  · rintro ⟨p, hp, rfl⟩
    exact ⟨hp, rfl⟩
  · exact fun ⟨hp, ho⟩ => ⟨_, hp, ho.symm⟩
  · rintro ⟨p, hp, rfl⟩
    exact ⟨hp, rfl⟩
  · exact fun ⟨hp, ho⟩ => ⟨_, hp, ho.symm⟩

/-- The objects stand in the order of their paths. -/
theorem objectsOf_sorted (h : (c.changed ++ c.new).Nodup) :
    (objectsOf c).Pairwise fun o o' => o.path < o'.path := by
  have hle : (objectsOf c).Pairwise fun o o' => decide (o.path ≤ o'.path) = true := by
    refine List.pairwise_mergeSort (fun a b c hab hbc => ?_) (fun a b => ?_) _
    · rw [decide_eq_true_eq] at hab hbc ⊢
      exact String.le_trans hab hbc
    · rw [Bool.or_eq_true, decide_eq_true_eq, decide_eq_true_eq]
      exact String.le_total a.path b.path
  have hpaths : ((objectsOf c).map ChangedObject.path).Nodup := by
    have hperm := (List.mergeSort_perm (c.changed.map (ChangedObject.fresh · false) ++
      c.new.map (ChangedObject.fresh · true)) fun a b => a.path ≤ b.path).map ChangedObject.path
    have hmap : (c.changed.map (ChangedObject.fresh · false) ++
        c.new.map (ChangedObject.fresh · true)).map ChangedObject.path = c.changed ++ c.new := by
      rw [List.map_append, List.map_map, List.map_map]
      exact congrArg₂ _ (List.map_id _) (List.map_id _)
    rw [hmap] at hperm
    exact hperm.nodup_iff.2 h
  refine hle.imp₂ (fun o o' hle hne => ?_) (List.pairwise_map.1 hpaths)
  exact String.not_le.1 fun hge => hne (String.le_antisymm (of_decide_eq_true hle) hge)

section Compare

variable {B P : Fingerprints} (hP : (P.map Prod.fst).Nodup)
include hP

/-- What the second snapshot shows otherwise than the first, or alone, is listed. -/
theorem listed_iff {p : String} : p ∈ (objectsOf (Fingerprints.compare B P)).map ChangedObject.path ↔
    ∃ digest, P.lookup p = some digest ∧ B.lookup p ≠ some digest := by
  have hpath : p ∈ (objectsOf (Fingerprints.compare B P)).map ChangedObject.path ↔
      p ∈ (Fingerprints.compare B P).changed ∨ p ∈ (Fingerprints.compare B P).new := by
    rw [List.mem_map]
    constructor
    · rintro ⟨o, ho, rfl⟩
      exact (mem_objectsOf.1 ho).imp And.left And.left
    · rintro (hp | hp)
      · exact ⟨.fresh p false, mem_objectsOf.2 (.inl ⟨hp, rfl⟩), rfl⟩
      · exact ⟨.fresh p true, mem_objectsOf.2 (.inr ⟨hp, rfl⟩), rfl⟩
  rw [hpath, Fingerprints.mem_changed hP, Fingerprints.mem_new hP]
  constructor
  · rintro (⟨x, y, hx, hy, hne⟩ | ⟨hnone, y, hy⟩)
    · exact ⟨y, hy, fun heq => hne (Option.some.inj (hx.symm.trans heq))⟩
    · exact ⟨y, hy, by rw [hnone]; nofun⟩
  · rintro ⟨y, hy, hne⟩
    cases hx : B.lookup p with
    | none => exact .inr ⟨rfl, y, hy⟩
    | some x => exact .inl ⟨x, y, rfl, hy, fun heq => hne (by rw [hx, heq])⟩

theorem isNew_iff (ho : o ∈ objectsOf (Fingerprints.compare B P)) :
    o.isNew = true ↔ B.lookup o.path = none := by
  rcases mem_objectsOf.1 ho with ⟨hp, heq⟩ | ⟨hp, heq⟩
  · obtain ⟨x, y, hx, -⟩ := (Fingerprints.mem_changed hP).1 hp
    rw [hx, heq]
    simp [ChangedObject.fresh]
  · rw [((Fingerprints.mem_new hP).1 hp).1, heq]
    simp [ChangedObject.fresh]

end Compare

end Differential

end Hotpatch
