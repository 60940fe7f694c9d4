import Hotpatch.Proofs.Build.Passes
import Hotpatch.Proofs.Build.Shelves

/-! Collecting the objects that differ. What is collected are copies: of the patched objects as the
snapshot shows them, and of the originals as the restoring pass leaves them. Nothing comes between a
snapshot and the copies but records of the log. -/

namespace Hotpatch

open Act Series

/-- Where each copy goes, with its content. -/
def Disk.copies (d : Disk) (cwd : Place) (source target : String) (ps : List String) :
    List (Place × Bytes) :=
  ps.filterMap fun p => (d.file? (Place.of cwd (under source p))).map fun f =>
    (Place.of cwd (under target p), f.content)

section Copies

variable {d : Disk} {cwd q : Place} {source target : String} {ps qs : List String} {c : Bytes}

theorem Disk.copies_cons {p : String} {f : File}
    (hf : d.file? (Place.of cwd (under source p)) = some f) :
    d.copies cwd source target (p :: qs) =
      (Place.of cwd (under target p), f.content) :: d.copies cwd source target qs := by
  rw [copies, List.filterMap_cons, hf]
  rfl

theorem Disk.mem_copies : (q, c) ∈ d.copies cwd source target qs ↔ ∃ p ∈ qs, ∃ f,
    d.file? (Place.of cwd (under source p)) = some f ∧ q = Place.of cwd (under target p) ∧
      c = f.content := by
  rw [copies, List.mem_filterMap]
  refine exists_congr fun p => and_congr_right fun _ => ?_
  rw [Option.map_eq_some_iff]
  refine exists_congr fun f => and_congr_right fun _ => ?_
  rw [Prod.mk.injEq, eq_comm, eq_comm (a := c)]

/-- Copies of different files go to different places. -/
theorem Disk.copies_nodup (hf : Files ps) (hq : ∀ q ∈ qs, q ∈ ps) (hn : qs.Nodup) :
    ((d.copies cwd source target qs).map Prod.fst).Nodup := by
  refine List.pairwise_map.2 (List.Pairwise.filterMap _ (fun p p' hne x hx x' hx' heq => ?_)
    (hn.imp_of_mem fun hp hp' hne => And.intro (hq _ hp) (And.intro (hq _ hp') hne)))
  obtain ⟨hp, hp', hne⟩ := hne
  obtain ⟨f, -, rfl⟩ := Option.map_eq_some_iff.1 hx
  obtain ⟨f', -, rfl⟩ := Option.map_eq_some_iff.1 hx'
  dsimp only at heq
  rw [hf.of_under hp, hf.of_under hp'] at heq
  have hparts := List.append_cancel_left heq
  exact hne (hf.free p hp p' hp' (hparts ▸ List.prefix_refl _))

end Copies

namespace Differential

variable {b : Differential} {h : Host} {d : Disk} {ps qs : List String} {cs : List (Place × Bytes)}
variable {t t' : Site} {x : String}

theorem isEntry_orig : IsEntry "orig" := by decide

theorem isEntry_patched : IsEntry "patched" := by decide

/-- Where objects stand in the tree. -/
def Objects (b : Differential) (cwd : Place) (ps : List String) (q : Place) : Prop :=
  ∃ p ∈ ps, q = Place.of cwd (under b.tree p)

/-- What is collected is the given copies of the objects `ps`. -/
abbrev Collected (b : Differential) (h : Host) (ps : List String) (cs : List (Place × Bytes)) :
    Site → Prop :=
  Shelved (Place.of h.cwd b.work) (b.Objects h.cwd ps) ps cs

/-- What is collected, while the objects stay as they are in `d`. -/
abbrev Collecting (b : Differential) (h : Host) (d : Disk) (ps : List String)
    (cs : List (Place × Bytes)) : Site → Prop :=
  Still (Place.of h.cwd b.work) (b.Objects h.cwd ps) d ps cs

/-- Objects that can be collected. -/
structure Apt (b : Differential) (h : Host) (ps : List String) : Prop where
  cwd : h.cwd.IsProper
  leading : Leading h.cwd b.work
  files : Files ps
  outside : ∀ q, b.Objects h.cwd ps q → ¬ Place.of h.cwd b.work <+: q

/-- A work directory that is there and holds nothing. Records of the log are written at any time, so
no log file is in it, or is itself one of the objects. -/
structure Ready (b : Differential) (h : Host) (P : Fingerprints) (t : Site) : Prop where
  sound : t.disk.IsSound
  made : t.disk.isDir h.cwd (clean b.work) = true
  empty : ∀ q, Place.of h.cwd b.work <+: q → q ≠ Place.of h.cwd b.work → t.disk.node? q = none
  sinks : ∀ q n, .file q n ∈ t.sinks →
    ¬ Place.of h.cwd b.work <+: q ∧ ¬ b.Objects h.cwd (P.map Prod.fst) q

section Copies

variable (hb : b.Apt h ps) (hx : IsEntry x)
include hb hx

theorem stage_collects {p v : String} (hp : p ∈ ps) (ht : b.Collecting h d ps cs t)
    (hr : Staging.stage b.tree p (under b.work x) h t = (.ok v, t')) :
    ∃ f, d.file? (Place.of h.cwd (under b.tree p)) = some f ∧ t'.records = t.records ∧
      b.Collecting h d ps ((Place.of h.cwd (under (under b.work x) p), f.content) :: cs) t' :=
  ht.stage hb.cwd hb.leading hx hb.files hb.outside hp ⟨p, hp, rfl⟩ hr

theorem stageAll_collects {v : Unit} (hq : ∀ q ∈ qs, q ∈ ps) (ht : b.Collecting h d ps cs t)
    (hr : b.stageAll (under b.work x) qs h t = (.ok v, t')) : t'.records = t.records ∧
    b.Collecting h d ps ((d.copies h.cwd b.tree (under b.work x) qs).reverse ++ cs) t' := by
  induction qs generalizing t cs with
  | nil =>
    obtain ⟨-, rfl⟩ := pure_of_ok hr
    exact ⟨rfl, ht⟩
  | cons q qs ih =>
    rw [stageAll] at hr
    obtain ⟨_, t₁, hstage, hr⟩ := bind_of_ok hr
    obtain ⟨hq, hqs⟩ := List.forall_mem_cons.1 hq
    obtain ⟨f, hf, hrecords, ht₁⟩ := stage_collects hb hx hq ht hstage
    obtain ⟨hrecords', ht'⟩ := ih hqs ht₁ hr
    refine ⟨hrecords'.trans hrecords, ?_⟩
    rw [Disk.copies_cons hf, List.reverse_cons, List.append_assoc]
    exact ht'

/-- The log tells of the objects that differ, and only of what is done here. -/
theorem stageOriginals_collects {before restored : Fingerprints} {v : Unit} (hq : ∀ q ∈ qs, q ∈ ps)
    (ht : b.Collecting h d ps cs t)
    (hr : b.stageOriginals before restored qs h t = (.ok v, t')) (ho : b.original = under b.work x) :
    (∀ q ∈ qs, ∃ f, d.file? (Place.of h.cwd (under b.tree q)) = some f) ∧
      (∃ new, t'.records = new ++ t.records ∧
        ∀ q ∈ qs, restored.lookup q ≠ before.lookup q → differing q ∈ new) ∧
      b.Collecting h d ps ((d.copies h.cwd b.tree (under b.work x) qs).reverse ++ cs) t' := by
  induction qs generalizing t cs with
  | nil =>
    obtain ⟨-, rfl⟩ := pure_of_ok hr
    exact ⟨by simp, ⟨[], rfl, by simp⟩, ht⟩
  | cons q qs ih =>
    obtain ⟨hq, hqs⟩ := List.forall_mem_cons.1 hq
    obtain ⟨t₁, t₂, s, hfirst, hstage, hr⟩ := stageOriginals_of_ok hr
    obtain ⟨noted, hrecords, hnoted, ht₁⟩ : ∃ noted, t₁.records = noted ++ t.records ∧
        (restored.lookup q ≠ before.lookup q → differing q ∈ noted) ∧
          b.Collecting h d ps cs t₁ := by
      rcases hfirst with ⟨rfl, hsame⟩ | rfl
      · exact ⟨[], rfl, fun hne => absurd hsame hne, ht⟩
      · exact ⟨[differing q], Log.emit_records h t _, fun _ => List.mem_singleton_self _,
          Still.emit _ t ht⟩
    rw [ho] at hstage
    obtain ⟨f, hf, hrecords₂, ht₂⟩ := stage_collects hb hx hq ht₁ hstage
    obtain ⟨hfiles, ⟨new, hnew, hwarned⟩, ht'⟩ := ih hqs ht₂ hr
    refine ⟨List.forall_mem_cons.2 ⟨⟨f, hf⟩, hfiles⟩, ⟨new ++ noted, ?_, ?_⟩, ?_⟩
    · rw [hnew, hrecords₂, hrecords, List.append_assoc]
    · refine List.forall_mem_cons.2 ⟨fun hne => ?_, fun p hp hne => ?_⟩
      · exact List.mem_append_right _ (hnoted hne)
      · exact List.mem_append_left _ (hwarned p hp hne)
    · rw [Disk.copies_cons hf, List.reverse_cons, List.append_assoc]
      exact ht'

end Copies

variable {B P : Fingerprints} {base : List Log.Record}

/-- An empty place is on shelves. -/
theorem Ready.collected (hs : b.Ready h P t) : b.Collected h (P.map Prod.fst) [] t := by
  obtain ⟨w, hw⟩ := Disk.isDir_iff.1 hs.made
  obtain ⟨rfl, hnode⟩ := Disk.find_ok hw
  rw [Place.of_clean] at hnode
  refine ⟨⟨hs.sound, fun q hq => ?_, fun q hq hdir => ?_⟩, hs.sinks⟩
  · rw [Disk.file?]
    by_cases hne : q = Place.of h.cwd b.work
    · rw [hne, hnode]
      rfl
    · rw [hs.empty q hq hne]
      rfl
  · by_contra hshelf
    rw [Disk.isDirAt_iff, hs.empty q hq fun heq => hshelf (.inl heq)] at hdir
    cases hdir

/-- What was fingerprinted while nothing was collected can be collected. -/
theorem apt_of_snapshot (hc : h.cwd.IsProper) (hl : Leading h.cwd b.work)
    (ht : b.Collected h (P.map Prod.fst) [] t)
    (hP : Fingerprints.ofTree t.disk h.cwd b.tree = .ok P) : b.Apt h (P.map Prod.fst) := by
  have outside : ∀ q, b.Objects h.cwd (P.map Prod.fst) q → ¬ Place.of h.cwd b.work <+: q := by
    intro q hq hw
    obtain ⟨p, hp, heq⟩ := hq
    obtain ⟨x, hm, hx⟩ := List.mem_map.1 hp
    obtain ⟨f, hf, -⟩ := Fingerprints.mem_ofTree ht.disk.sound hP hm
    have hnone := ht.disk.files q hw
    rw [heq, ← hx, hf] at hnone
    cases hnone
  exact ⟨hc, hl, Fingerprints.ofTree_files ht.disk.sound hP, outside⟩

/-- A fingerprint that is compared is one of the second snapshot. -/
theorem mem_of_compare {p : String}
    (hp : p ∈ (Fingerprints.compare B P).changed ++ (Fingerprints.compare B P).new) :
    p ∈ P.map Prod.fst := by
  obtain ⟨x, hx, rfl⟩ := Fingerprints.compare_mem (List.mem_append.1 hp)
  exact List.mem_map_of_mem hx

/-- The patched objects are collected as the snapshot shows them. -/
theorem buildPatched_collects (hh : h.Leaves (Place.of h.cwd b.work)) (hc : h.cwd.IsProper)
    (hl : Leading h.cwd b.work) {r : List String × Fingerprints.Comparison}
    (ht : b.Collected h (P.map Prod.fst) [] t) (hbase : base <:+ t.records)
    (hr : b.buildPatched B h t = (.ok r, t'))
    (hP : Fingerprints.ofTree (b.building h t).2.disk h.cwd b.tree = .ok P) :
    r.2 = Fingerprints.compare B P ∧ (b.building h t).2.disk.IsSound ∧ b.Apt h (P.map Prod.fst) ∧
      b.Collected h (P.map Prod.fst) ((b.building h t).2.disk.copies h.cwd b.tree b.patched
        (r.2.changed ++ r.2.new)).reverse t' ∧ base <:+ t'.records := by
  obtain ⟨P', t₁, t₂, v, hbuilding, hsnapshot, hcompare, hstage⟩ := buildPatched_of_ok hr
  have hsite : (b.building h t).2 = t₁ := congrArg Prod.snd hbuilding
  rw [hsite] at hP ⊢
  obtain ⟨ht₁, hbase₁⟩ :=
    announced_keeps (hh.shelved.and (lasting_records h base)) ⟨ht, hbase⟩ hbuilding
  obtain ⟨hP', record, rfl⟩ := snapshot_of_ok hsnapshot
  obtain rfl : P' = P := Except.ok.inj (hP'.symm.trans hP)
  have hb := apt_of_snapshot hc hl ht₁ hP
  have hq : ∀ q ∈ r.2.changed ++ r.2.new, q ∈ P'.map Prod.fst := fun q hq =>
    mem_of_compare (hcompare ▸ hq)
  obtain ⟨hrecords, ht'⟩ :=
    stageAll_collects hb isEntry_patched hq (Still.emit record t₁ ht₁.still) hstage
  refine ⟨hcompare, ht₁.disk.sound, hb, ?_, ?_⟩
  · rw [List.append_nil] at ht'
    exact ht'.toShelved
  · rw [hrecords, Log.emit_records]
    exact hbase₁.trans (List.suffix_cons _ _)

/-- The originals are collected as the restoring pass leaves them, and the log tells where one is not
as it was. -/
theorem restore_collects (hh : h.Leaves (Place.of h.cwd b.work)) (hb : b.Apt h ps)
    (hq : ∀ q ∈ qs, q ∈ ps) {v : Unit} (ht : b.Collected h ps cs t) (hbase : base <:+ t.records)
    (hr : b.restore B qs h t = (.ok v, t')) :
    b.Collected h ps
        (((b.rebuilding h t).2.disk.copies h.cwd b.tree b.original qs).reverse ++ cs) t' ∧
      ∃ new, t'.records = new ++ base ∧ ∀ q ∈ qs,
        ∃ f, (b.rebuilding h t).2.disk.file? (Place.of h.cwd (under b.tree q)) = some f ∧
          ∀ digest, B.lookup q = some digest →
            digest = Digest.Sha2.sha256 f.content ∨ differing q ∈ new := by
  rcases restore_of_ok hr with ⟨rfl, rfl⟩ | ⟨R, t₁, t₂, v', hrebuilding, hsnapshot, hstage⟩
  · obtain ⟨new, hnew⟩ := hbase
    exact ⟨ht, new, hnew.symm, by simp⟩
  have hsite : (b.rebuilding h t).2 = t₁ := congrArg Prod.snd hrebuilding
  rw [hsite]
  obtain ⟨ht₁, hbase₁⟩ :=
    announced_keeps (hh.shelved.and (lasting_records h base)) ⟨ht, hbase⟩ hrebuilding
  obtain ⟨hR, record, rfl⟩ := snapshot_of_ok hsnapshot
  obtain ⟨hfiles, ⟨new, hnew, hwarned⟩, ht'⟩ :=
    stageOriginals_collects hb isEntry_orig hq (Still.emit record t₁ ht₁.still) hstage rfl
  obtain ⟨before, hbefore⟩ := hbase₁
  refine ⟨ht'.toShelved, new ++ record :: before, ?_, fun q hq' => ?_⟩
  · rw [hnew, Log.emit_records, ← hbefore, List.append_assoc, List.cons_append]
  obtain ⟨f, hf⟩ := hfiles q hq'
  refine ⟨f, hf, fun digest hdigest => ?_⟩
  by_cases hsame : R.lookup q = B.lookup q
  · rw [hdigest] at hsame
    have hm := (lookup_iff_mem (Fingerprints.ofTree_nodup ht₁.disk.sound hR)).1 hsame
    obtain ⟨g, hg, hprint⟩ := Fingerprints.mem_ofTree ht₁.disk.sound hR hm
    rw [hf] at hg
    exact .inl (by rw [hprint, Option.some.inj hg])
  · exact .inr (List.mem_append_left _ (hwarned q hq' hsame))

/-- The copies of a harvest: the patched objects from the tree `d`, the originals from `d'`. -/
def kept (b : Differential) (cwd : Place) (d d' : Disk) (c : Fingerprints.Comparison) :
    List (Place × Bytes) :=
  (d'.copies cwd b.tree b.original c.changed).reverse ++
    (d.copies cwd b.tree b.patched (c.changed ++ c.new)).reverse

/-- Copies from the objects `ps` go to different places below where they are collected. -/
theorem Apt.copies (hb : b.Apt h ps) (hx : IsEntry x) (hq : ∀ q ∈ qs, q ∈ ps) (hn : qs.Nodup)
    (d : Disk) :
    (((d.copies h.cwd b.tree (under b.work x) qs).reverse).map Prod.fst).Nodup ∧
      ∀ c ∈ (d.copies h.cwd b.tree (under b.work x) qs).reverse,
        Place.of h.cwd b.work ++ [x] <+: c.1 := by
  refine ⟨?_, ?_⟩
  · rw [List.map_reverse, List.nodup_reverse]
    exact Disk.copies_nodup hb.files hq hn
  · rintro ⟨q, c⟩ hc
    obtain ⟨p, hp, f, -, hplace, -⟩ := Disk.mem_copies.1 (List.mem_reverse.1 hc)
    exact ⟨(Path.ofText p).parts, by rw [hplace, hb.files.of_target (hq p hp) hx]; simp⟩

theorem Apt.under_place (hb : b.Apt h ps) (hx : IsEntry x) {p : String} (hp : p ∈ ps) :
    Place.of h.cwd b.work <+: Place.of h.cwd (under (under b.work x) p) := by
  rw [hb.files.of_target hp hx]
  exact List.prefix_append _ _

/-- The copies stand where they belong, and there is nothing else. -/
theorem Collected.file_iff {c : Fingerprints.Comparison} {d' : Disk} (hb : b.Apt h ps)
    (hc : (c.changed ++ c.new).Nodup) (hps : ∀ q ∈ c.changed ++ c.new, q ∈ ps)
    (ht : b.Collected h ps (b.kept h.cwd d d' c) t) (q : Place) (content : Bytes)
    (hq : Place.of h.cwd b.work <+: q) : (∃ f, t.disk.file? q = some f ∧ f.content = content) ↔
      (∃ p ∈ c.changed, ∃ g, d'.file? (Place.of h.cwd (under b.tree p)) = some g ∧
        q = Place.of h.cwd (under b.original p) ∧ content = g.content) ∨
      ∃ p ∈ c.changed ++ c.new, ∃ g, d.file? (Place.of h.cwd (under b.tree p)) = some g ∧
        q = Place.of h.cwd (under b.patched p) ∧ content = g.content := by
  obtain ⟨hkeys, hbelow⟩ := hb.copies isEntry_orig (fun q hq => hps q (List.mem_append_left _ hq))
    hc.of_append_left d'
  obtain ⟨hkeys', hbelow'⟩ := hb.copies isEntry_patched hps hc d
  have hplaces : ((b.kept h.cwd d d' c).map Prod.fst).Nodup := by
    rw [kept, List.map_append]
    refine List.nodup_append.2 ⟨hkeys, hkeys', fun a ha a' ha' heq => ?_⟩
    obtain ⟨y, hy, rfl⟩ := List.mem_map.1 ha
    obtain ⟨y', hy', rfl⟩ := List.mem_map.1 ha'
    have hpre := hbelow y hy
    rw [heq] at hpre
    have hsame := (List.prefix_of_prefix_length_le hpre (hbelow' y' hy') (by simp)).eq_of_length
      (by simp)
    simp at hsame
  rw [← Option.map_eq_some_iff, ht.disk.files q hq, lookup_iff_mem hplaces, kept, List.mem_append,
    List.mem_reverse, List.mem_reverse, Disk.mem_copies, Disk.mem_copies]

end Differential

end Hotpatch
