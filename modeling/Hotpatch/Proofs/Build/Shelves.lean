import Hotpatch.Proofs.Build.Snapshot
import Hotpatch.Proofs.Pipeline.Collecting
import Hotpatch.Proofs.Sturdy

/-! The place where objects are collected, while tools run and copies are made. Tools leave it as it is;
so what is there is the copies alone, and the directories that the program makes for them. -/

namespace Hotpatch

open Act

/-- Whatever tools do, they change nothing at a place and below it. -/
structure Host.Leaves (h : Host) (w : Place) : Prop where
  sound : ∀ past start d, d.IsSound → (h.react past start d).disk.IsSound
  nodes : ∀ past start d q, d.IsSound → w <+: q → (h.react past start d).disk.node? q = d.node? q

/-- Where directories are: at the place itself, directly in it, and in these on the way to files. -/
def OnShelf (w : Place) (ps : List String) (q : Place) : Prop :=
  q = w ∨ ∃ x m, q = w ++ x :: m ∧
    (m = [] ∨ ∃ p ∈ ps, m <+: (Path.ofText p).parts ∧ m ≠ (Path.ofText p).parts)

/-- The way of a path leads through nothing below where it ends. -/
def Leading (cwd : Place) (work : String) : Prop :=
  ∀ m, m <+: (Path.ofText work).parts → Place.of cwd work <+: Place.upTo cwd work m →
    Place.upTo cwd work m = Place.of cwd work

namespace Disk

variable {d d' : Disk} {cwd w p q : Place} {ps : List String} {cs : List (Place × Bytes)}
variable {work s x : String}

/-- At a place are the given copies, and directories only where copies need them. -/
structure Shelves (d : Disk) (w : Place) (ps : List String) (cs : List (Place × Bytes)) : Prop where
  sound : d.IsSound
  files : ∀ q, w <+: q → (d.file? q).map File.content = cs.lookup q
  dirs : ∀ q, w <+: q → d.isDirAt q = true → OnShelf w ps q

theorem Shelves.congr (hd : d.Shelves w ps cs) (hs : d'.IsSound)
    (hn : ∀ q, w <+: q → d'.node? q = d.node? q) : d'.Shelves w ps cs := by
  refine ⟨hs, fun q hq => ?_, fun q hq hdir => hd.dirs q hq ?_⟩
  · have hfile : d'.file? q = d.file? q := by rw [file?, hn q hq, file?]
    rw [hfile]
    exact hd.files q hq
  · rwa [isDirAt, hn q hq] at hdir

theorem Shelves.append (hd : d.Shelves w ps cs) (hp : ¬ w <+: p) (serial : Nat) (c : Bytes) :
    (d.append p serial c).Shelves w ps cs :=
  hd.congr (hd.sound.append _ _ _) fun _ hq => node?_append_ne d serial c fun heq => hp (heq ▸ hq)

theorem Shelves.put_dir (hd : d.Shelves w ps cs) (hp : p.IsProper) (hnone : d.node? p = none)
    (hw : w <+: p → OnShelf w ps p) : (d.put p .dir).Shelves w ps cs := by
  refine ⟨hd.sound.put hp _, fun q hq => ?_, fun q hq hdir => ?_⟩
  · rw [file?_put_dir hnone]
    exact hd.files q hq
  · by_cases hqp : q = p
    · rw [hqp] at hq ⊢
      exact hw hq
    · refine hd.dirs q hq ?_
      rw [isDirAt_iff, node?_put, if_neg hqp] at hdir
      split at hdir
      · next hroot => rw [hroot, isDirAt_nil]
      · exact isDirAt_iff.2 hdir

theorem Shelves.store {c : Bytes} {t : Int} (hd : d.Shelves w ps cs) (hp : p.IsProper)
    (hdir : d.isDirAt p = false) : (d.store p c t).Shelves w ps ((p, c) :: cs) := by
  have hne : p ≠ [] := by
    rintro rfl
    rw [isDirAt_nil] at hdir
    cases hdir
  obtain ⟨k, hk⟩ := file?_store (d := d) (c := c) (t := t) hne
  refine ⟨hd.sound.store hp, fun q hq => ?_, fun q hq hq' => ?_⟩
  · rw [hk, List.lookup_cons]
    by_cases hqp : q = p
    · rw [if_pos hqp, hqp, beq_self_eq_true]
      rfl
    · rw [if_neg hqp, beq_false_of_ne hqp]
      exact hd.files q hq
  · rw [isDirAt_store hdir] at hq'
    exact hd.dirs q hq hq'

/-- Where a file belongs stands no directory. -/
theorem Shelves.isDirAt_file {f : String} (hd : d.Shelves w ps cs) (hf : Files ps) (hp : f ∈ ps) :
    d.isDirAt (w ++ x :: (Path.ofText f).parts) = false := by
  rw [Bool.eq_false_iff]
  intro hdir
  rcases hd.dirs _ (List.prefix_append _ _) hdir with heq | ⟨x', m, heq, hm⟩
  · simp at heq
  · obtain ⟨-, rfl⟩ := List.cons.inj (List.append_cancel_left heq)
    rcases hm with hm | ⟨q, hq, hpre, hne⟩
    · exact hf.filled f hp hm
    · exact hne (by rw [hf.free f hp q hq hpre])

/-- Where no directory stands, a copy is made at this very place. -/
theorem Shelves.copy {a b : String} (hd : d.Shelves w ps cs) (hb : Place.of cwd b = p)
    (hp : p.IsProper) (hw : w <+: p) (hfree : d.isDirAt p = false) (hr : d.copy cwd a b = .ok d') :
    ∃ f, d.file? (Place.of cwd a) = some f ∧ (∀ q, ¬ w <+: q → d'.file? q = d.file? q) ∧
      d'.Shelves w ps ((p, f.content) :: cs) := by
  obtain ⟨b', f, hb', hopen, -, rfl⟩ := copy_ok hr
  have hdir : ¬ d.isDir cwd b = true := by
    intro hdir
    obtain ⟨q, hq⟩ := isDir_iff.1 hdir
    obtain ⟨rfl, hnode⟩ := find_ok hq
    rw [hb, ← isDirAt_iff, hfree] at hnode
    cases hnode
  rw [if_neg hdir] at hb'
  rw [hb', hb]
  refine ⟨f, file?_eq_some.2 (find_ok (open?_ok hopen)).2, fun q hq => ?_, hd.store hp hfree⟩
  have hne : q ≠ p := fun heq => hq (heq ▸ hw)
  rw [file?, node?_store_ne hne, file?]

/-- Making directories changes no file. -/
theorem file?_makeDirs (d : Disk) (cwd : Place) (s : String) (q : Place) :
    (d.makeDirs cwd s).1.file? q = d.file? q :=
  makeDirs_keeps (J := fun d' => d'.file? q = d.file? q)
    (fun _ _ hd hnone => (file?_put_dir hnone q).trans hd) rfl s

/-- The way to an empty directory leads through nothing below it. -/
theorem leading_of_isDir (h : d.isDir cwd (clean work) = true)
    (hempty : ∀ q, Place.of cwd work <+: q → q ≠ Place.of cwd work → d.node? q = none) :
    Leading cwd work := by
  intro m hm hw
  obtain ⟨p, hp⟩ := isDir_iff.1 h
  by_contra hne
  have hdir := find_ways hp m (by rwa [ofText_clean])
  rw [Place.upTo, ofText_clean, ← Place.upTo, isDirAt_iff, hempty _ hw hne] at hdir
  cases hdir

/-- Making directories below a leading path, for what is on the way to a file. -/
theorem Shelves.makeDirs {k : List String} (hd : d.Shelves (Place.of cwd work) ps cs)
    (hc : cwd.IsProper) (hl : Leading cwd work) (hk : ∀ n ∈ x :: k, IsEntry n)
    (hs : Path.ofText s = ⟨(Path.ofText work).slashes, (Path.ofText work).parts ++ x :: k⟩)
    (hp : ∀ m, m <+: k → m = [] ∨
      ∃ p ∈ ps, m <+: (Path.ofText p).parts ∧ m ≠ (Path.ofText p).parts) :
    (d.makeDirs cwd s).1.Shelves (Place.of cwd work) ps cs := by
  have hupTo : ∀ m, Place.upTo cwd s m = Place.upTo cwd work m := fun m => by
    rw [Place.upTo, Place.upTo, hs]
  refine makeDirs_follows (J := (Shelves · (Place.of cwd work) ps cs)) (fun d m hm hd hnone => ?_) hd
  refine hd.put_dir ?_ hnone fun hw => ?_
  · rw [← Place.of_upTo hm]
    exact Place.of_proper hc _
  rw [hupTo] at hw ⊢
  rw [hs] at hm
  rcases List.prefix_or_prefix_of_prefix hm (List.prefix_append _ _) with hm | ⟨r, rfl⟩
  · exact .inl (hl m hm hw)
  · have hr := (List.prefix_append_right_inj _).1 hm
    cases r with
    | nil => exact .inl (hl _ (by simp) hw)
    | cons x' r =>
      have hentries : ∀ n ∈ x' :: r, n ≠ ".." := fun n hn => (hk n (hr.subset hn)).stays
      refine .inr ⟨x', r, ?_, hp r (List.cons_prefix_cons.1 hr).2⟩
      rw [Place.upTo, Place.along_append, Place.along_eq_append hentries]
      rfl

end Disk

variable {h : Host} {w : Place} {o : Place → Prop} {ps : List String} {cs : List (Place × Bytes)}
variable {d : Disk} {t t' : Site}

/-- A place is on shelves; the log files are elsewhere, and none of the objects `o`. -/
structure Shelved (w : Place) (o : Place → Prop) (ps : List String) (cs : List (Place × Bytes))
    (t : Site) : Prop where
  disk : t.disk.Shelves w ps cs
  sinks : ∀ q n, .file q n ∈ t.sinks → ¬ w <+: q ∧ ¬ o q

/-- The objects are those of a tree that was seen before. -/
structure Still (w : Place) (o : Place → Prop) (d : Disk) (ps : List String)
    (cs : List (Place × Bytes)) (t : Site) : Prop extends Shelved w o ps cs t where
  objects : ∀ q, o q → t.disk.file? q = d.file? q

theorem Shelved.setDisk {cs' : List (Place × Bytes)} (ht : Shelved w o ps cs t)
    (hd : d.Shelves w ps cs') : Shelved w o ps cs' { t with disk := d } :=
  ⟨hd, ht.sinks⟩

theorem Shelved.still (ht : Shelved w o ps cs t) : Still w o t.disk ps cs t := ⟨ht, fun _ _ => rfl⟩

theorem Still.emit (r : Log.Record) : Keeps h (Still w o d ps cs) (Log.emit r) := by
  intro t ht
  have logged : ∀ (d' : Disk) q n c, .file q n ∈ t.sinks →
      (d'.Shelves w ps cs ∧ ∀ p, o p → d'.file? p = d.file? p) →
      (d'.append q n c).Shelves w ps cs ∧ ∀ p, o p → (d'.append q n c).file? p = d.file? p := by
    intro d' q n c hq hd'
    refine ⟨hd'.1.append (ht.sinks q n hq).1 n c, fun p hp => ?_⟩
    have hne : p ≠ q := fun heq => (ht.sinks q n hq).2 (heq ▸ hp)
    rw [Disk.file?, Disk.node?_append_ne _ n c hne]
    exact hd'.2 p hp
  obtain ⟨hd, hsinks⟩ := Log.emit_keeps (h := h) logged ⟨ht.disk, ht.objects⟩
  exact ⟨⟨hd.1, hsinks ▸ ht.sinks⟩, hd.2⟩

theorem Host.Leaves.shelved (hh : h.Leaves w) : Lasting h (Shelved w o ps cs) := by
  refine ⟨⟨fun r t ht => ?_, fun e he t ht => ⟨ht.disk, ht.sinks⟩⟩, fun s t ht => ⟨?_, ht.sinks⟩,
    fun s t ht => ⟨ht.disk, ht.sinks⟩⟩
  · exact (Still.emit r t ht.still).toShelved
  · exact ht.disk.congr (hh.sound _ _ _ ht.disk.sound) fun q hq => hh.nodes _ _ _ q ht.disk.sound hq

/-- Records are only added to the log. -/
theorem Staging.stage_of_ok {source path target v : String}
    (hr : Staging.stage source path target h t = (.ok v, t')) : ∃ d',
      (t.disk.makeDirs h.cwd (parent (under target path))).1.copy h.cwd (under source path)
        (under target path) = .ok d' ∧ t' = { t with disk := d' } := by
  rw [Staging.stage] at hr
  obtain ⟨r, t₁, htry, hr⟩ := bind_of_ok hr
  rw [attempt_apply] at htry
  obtain ⟨hval, hsite⟩ := Prod.mk.inj htry
  rcases r with e | u
  · cases e <;> cases hr
  · obtain ⟨-, rfl⟩ := pure_of_ok hr
    obtain ⟨u', t₂, hmake, hcopy⟩ := bind_of_ok (Prod.ext (Except.ok.inj hval) hsite)
    obtain rfl := makeDirs_of_ok hmake
    obtain ⟨d', hd', rfl⟩ := change_of_ok hcopy
    dsimp only at hd'
    exact ⟨d', hd', rfl⟩

section Staging

variable {work x source : String}
variable (hc : h.cwd.IsProper) (hl : Leading h.cwd work) (hx : IsEntry x)
include hc hl hx

theorem Shelved.ensureDirectory (ht : Shelved (Place.of h.cwd work) o ps cs t) {v : String}
    (hr : Staging.ensureDirectory (under work x) h t = (.ok v, t')) :
    t'.records = t.records ∧ Shelved (Place.of h.cwd work) o ps cs t' := by
  rw [Staging.ensureDirectory] at hr
  obtain ⟨u, t₁, hmake, hr⟩ := bind_of_ok hr
  obtain ⟨-, rfl⟩ := pure_of_ok hr
  obtain rfl := makeDirs_of_ok hmake
  have hs : Path.ofText (clean (under work x)) =
      ⟨(Path.ofText work).slashes, (Path.ofText work).parts ++ [x]⟩ := by
    rw [ofText_clean, ofText_under (isAbsolute_name hx.toIsName), parts_ofText_name hx.toIsName]
  exact ⟨rfl, ht.setDisk (ht.disk.makeDirs hc hl (List.forall_mem_singleton.2 hx) hs fun m hm =>
    .inl (List.prefix_nil.1 hm))⟩

variable (hf : Files ps) (hout : ∀ q, o q → ¬ Place.of h.cwd work <+: q)
include hf

/-- Making the directories above a copy. -/
theorem Disk.Shelves.makeParent {p : String} (hd : d.Shelves (Place.of h.cwd work) ps cs)
    (hp : p ∈ ps) :
    (d.makeDirs h.cwd (parent (under (under work x) p))).1.Shelves (Place.of h.cwd work) ps cs := by
  have hparts : Path.ofText (under (under work x) p) = ⟨(Path.ofText work).slashes,
      (Path.ofText work).parts ++ x :: (Path.ofText p).parts⟩ := by
    rw [ofText_under (hf.relative hp), ofText_under (isAbsolute_name hx.toIsName),
      parts_ofText_name hx.toIsName, List.append_assoc]
    rfl
  have hfilled := hf.filled p hp
  have hlast : ((Path.ofText work).parts ++ x :: (Path.ofText p).parts).dropLast =
      (Path.ofText work).parts ++ x :: (Path.ofText p).parts.dropLast := by
    rw [List.dropLast_append_of_ne_nil (List.cons_ne_nil _ _), List.dropLast_cons_of_ne_nil hfilled]
  have hs : Path.ofText (parent (under (under work x) p)) = ⟨(Path.ofText work).slashes,
      (Path.ofText work).parts ++ x :: (Path.ofText p).parts.dropLast⟩ := by
    have hproper := Path.ofText_proper (under (under work x) p)
    have hk : (⟨(Path.ofText work).slashes,
        ((Path.ofText work).parts ++ x :: (Path.ofText p).parts).dropLast⟩ : Path).IsProper := by
      rw [hparts] at hproper
      exact ⟨hproper.slashes, fun n hn => hproper.parts n (List.dropLast_subset _ hn)⟩
    rw [parent, hparts]
    dsimp only
    rw [Path.ofText_text hk, hlast]
  refine hd.makeDirs hc hl (fun n hn => ?_) hs fun m hm => .inr ⟨p, hp, ?_, ?_⟩
  · rcases List.mem_cons.1 hn with rfl | hn
    · exact hx
    · exact hf.proper p hp n (List.dropLast_subset _ hn)
  · exact hm.trans (List.dropLast_prefix _)
  · rintro rfl
    have hlen := hm.length_le
    rw [List.length_dropLast] at hlen
    have hpos := List.length_pos_iff.2 hfilled
    omega

include hout

/-- Keeping an object adds its copy, which has the content that the object had when it was seen. -/
theorem Still.stage {p : String} (ht : Still (Place.of h.cwd work) o d ps cs t) (hp : p ∈ ps)
    (ho : o (Place.of h.cwd (under source p))) {v : String}
    (hr : Staging.stage source p (under work x) h t = (.ok v, t')) :
    ∃ f, d.file? (Place.of h.cwd (under source p)) = some f ∧ t'.records = t.records ∧
      Still (Place.of h.cwd work) o d ps ((Place.of h.cwd (under (under work x) p), f.content) :: cs)
        t' := by
  obtain ⟨d', hcopy, rfl⟩ := Staging.stage_of_ok hr
  have hmade := ht.disk.makeParent hc hl hx hf hp
  have htarget : Place.of h.cwd (under (under work x) p) = _ := hf.of_target hp hx
  rw [htarget]
  have hproper : Place.IsProper (Place.of h.cwd work ++ x :: (Path.ofText p).parts) :=
    htarget ▸ Place.of_proper hc _
  obtain ⟨f, hfile, hrest, hdisk⟩ := hmade.copy htarget hproper (List.prefix_append _ _)
    (hmade.isDirAt_file hf hp) hcopy
  rw [Disk.file?_makeDirs] at hfile
  refine ⟨f, by rw [← ht.objects _ ho, hfile], rfl, ht.setDisk hdisk, fun q hq => ?_⟩
  dsimp only
  rw [hrest q (hout q hq), Disk.file?_makeDirs, ht.objects q hq]

end Staging

end Hotpatch
