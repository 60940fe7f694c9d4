import Hotpatch.Proofs.Build.Collect

/-! What a harvest holds when the work comes to its end: the objects that the fingerprints of two
builds tell apart, with copies of them as they were at the time, and nothing else. -/

namespace Hotpatch

open Act Series

namespace Differential

variable {b : Differential} {h : Host} {t t' : Site} {B P : Fingerprints}

/-- What the work leaves when it comes to its end. -/
theorem instrumented_collects (hc : h.cwd.IsProper) (hh : h.Leaves (Place.of h.cwd b.work))
    (hs : b.Ready h P t) {v : Harvest} (hr : b.instrumented (some B) h t = (.ok v, t'))
    (hP : Fingerprints.ofTree (b.untilPatched h t).2.disk h.cwd b.tree = .ok P) :
    ∃ undefined new, v = ⟨objectsOf (Fingerprints.compare B P), undefined, b.original, b.patched⟩ ∧
      (b.untilPatched h t).2.disk.IsSound ∧ b.Apt h (P.map Prod.fst) ∧
      b.Collected h (P.map Prod.fst) (b.kept h.cwd (b.untilPatched h t).2.disk
        (b.untilRestored B h t).2.disk (Fingerprints.compare B P)) t' ∧
      t'.records = new ++ t.records ∧ ∀ q ∈ (Fingerprints.compare B P).changed,
        ∃ f, (b.untilRestored B h t).2.disk.file? (Place.of h.cwd (under b.tree q)) = some f ∧
          ∀ digest, B.lookup q = some digest →
            digest = Digest.Sha2.sha256 f.content ∨ differing q ∈ new := by
  have hl := Disk.leading_of_isDir hs.made hs.empty
  obtain ⟨t₁, t₂, t₃, t₄, t₅, t₆, v₁, v₂, v₃, v₅, v₆, v₇, r, rfl, h₁, h₂, happly, hbuild, hpatched,
    hrevert, hrestore, hrestored, hannounce⟩ := instrumented_of_ok hr
  rw [hpatched] at hP ⊢
  rw [hrestored]
  have hI : ∀ cs, Lasting h fun u => b.Collected h (P.map Prod.fst) cs u ∧ t.records <:+ u.records :=
    fun cs => hh.shelved.and (lasting_records h _)
  obtain ⟨hrecords₁, ht₁⟩ := hs.collected.ensureDirectory hc hl isEntry_orig h₁
  obtain ⟨hrecords₂, ht₂⟩ := ht₁.ensureDirectory hc hl isEntry_patched h₂
  have hbase₂ : t.records <:+ t₂.records := ⟨[], (hrecords₂.trans hrecords₁).symm⟩
  obtain ⟨ht₃, hbase₃⟩ := (hI []).apply.eq ⟨ht₂, hbase₂⟩ happly
  obtain ⟨hcompare, hsound, hb, ht₄, hbase₄⟩ := buildPatched_collects hh hc hl ht₃ hbase₃ hbuild hP
  obtain ⟨ht₅, hbase₅⟩ := (hI _).revertAll.eq ⟨ht₄, hbase₄⟩ hrevert
  have hq : ∀ q ∈ r.2.changed, q ∈ P.map Prod.fst := fun q hq => by
    rw [hcompare] at hq
    exact mem_of_compare (List.mem_append_left _ hq)
  obtain ⟨ht₆, new, hnew, htold⟩ := restore_collects hh hb hq ht₅ hbase₅ hrestore
  have ht' := (hh.shelved.announce r.1 r.2).eq ht₆ hannounce
  obtain ⟨last, hlast⟩ : t₆.records <:+ t'.records :=
    ((lasting_records h t₆.records).announce r.1 r.2).eq (List.suffix_refl _) hannounce
  rw [← hcompare]
  refine ⟨r.1, last ++ new, rfl, hsound, hb, ht', ?_, fun q hq => ?_⟩
  · rw [← hlast, hnew, List.append_assoc]
  · obtain ⟨f, hf, hdigest⟩ := htold q hq
    exact ⟨f, hf, fun x hx => (hdigest x hx).imp_right (List.mem_append_right _)⟩

/-- What is in a harvest, by the fingerprints `B` and `P` before and with the patches, and by the
tree from which the originals are taken. -/
structure Faithful (b : Differential) (cwd : Place) (B P : Fingerprints) (restored d : Disk)
    (noted : List Log.Record) (v : Harvest) : Prop where
  original : v.original = b.original
  patched : v.patched = b.patched
  sorted : v.objects.Pairwise fun o o' => o.path < o'.path
  listed : ∀ p, p ∈ v.objects.map ChangedObject.path ↔
    ∃ digest, P.lookup p = some digest ∧ B.lookup p ≠ some digest
  fresh : ∀ o ∈ v.objects, o.isNew = true ↔ B.lookup o.path = none
  /-- The patched copies are what was fingerprinted. -/
  printed : ∀ o ∈ v.objects, ∃ f, d.file? (Place.of cwd (under v.patched o.path)) = some f ∧
    P.lookup o.path = some (Digest.Sha2.sha256 f.content)
  /-- The originals are what the tree holds, and what they were before unless the log warns. -/
  restored : ∀ o ∈ v.objects, o.isNew = false → ∃ f g,
    d.file? (Place.of cwd (under v.original o.path)) = some f ∧
      restored.file? (Place.of cwd (under b.tree o.path)) = some g ∧ f.content = g.content ∧
        (B.lookup o.path = some (Digest.Sha2.sha256 f.content) ∨ differing o.path ∈ noted)
  only : ∀ q f, Place.of cwd b.work <+: q → d.file? q = some f → ∃ o ∈ v.objects,
    q = Place.of cwd (under v.patched o.path) ∨
      o.isNew = false ∧ q = Place.of cwd (under v.original o.path)

/-- A harvest holds what the fingerprints tell, as it was at the time. -/
theorem instrumented_harvests (hc : h.cwd.IsProper) (hh : h.Leaves (Place.of h.cwd b.work))
    (hs : b.Ready h P t) {v : Harvest} (hr : b.instrumented (some B) h t = (.ok v, t'))
    (hP : Fingerprints.ofTree (b.untilPatched h t).2.disk h.cwd b.tree = .ok P) :
    ∃ new, t'.records = new ++ t.records ∧
      Faithful b h.cwd B P (b.untilRestored B h t).2.disk t'.disk new v := by
  obtain ⟨undefined, new, rfl, hsound, hb, ht', hnew, htold⟩ := instrumented_collects hc hh hs hr hP
  have hnodup := Fingerprints.ofTree_nodup hsound hP
  have stored := Collected.file_iff hb (Fingerprints.compare_nodup hnodup B)
    (fun _ => mem_of_compare) ht'
  -- A listed object was fingerprinted, so there was a file of it.
  have listed : ∀ o ∈ objectsOf (Fingerprints.compare B P),
      o.path ∈ (Fingerprints.compare B P).changed ++ (Fingerprints.compare B P).new := fun o ho =>
    List.mem_append.2 ((mem_objectsOf.1 ho).imp And.left And.left)
  refine ⟨new, hnew, rfl, rfl, objectsOf_sorted (Fingerprints.compare_nodup hnodup B),
    fun p => listed_iff hnodup, fun o ho => isNew_iff hnodup ho, fun o ho => ?_, fun o ho hold => ?_,
    fun q f hq hf => ?_⟩
  · have hmem := mem_of_compare (listed o ho)
    obtain ⟨⟨p, digest⟩, hm, hpath⟩ := List.mem_map.1 hmem
    dsimp only at hpath
    subst hpath
    obtain ⟨g, hg, hdigest⟩ := Fingerprints.mem_ofTree hsound hP hm
    obtain ⟨f, hf, hcontent⟩ := (stored _ g.content (hb.under_place isEntry_patched hmem)).2
      (.inr ⟨o.path, listed o ho, g, hg, rfl, rfl⟩)
    refine ⟨f, hf, ?_⟩
    rw [hcontent, ← hdigest]
    exact (lookup_iff_mem hnodup).2 hm
  · obtain ⟨hchanged, -⟩ | ⟨-, ho'⟩ := mem_objectsOf.1 ho
    · obtain ⟨g, hg, hwarned⟩ := htold o.path hchanged
      obtain ⟨f, hf, hcontent⟩ := (stored _ g.content (hb.under_place isEntry_orig
        (mem_of_compare (listed o ho)))).2 (.inl ⟨o.path, hchanged, g, hg, rfl, rfl⟩)
      refine ⟨f, g, hf, hg, hcontent, ?_⟩
      obtain ⟨x, y, hx, -⟩ := (Fingerprints.mem_changed hnodup).1 hchanged
      rw [hx, hcontent]
      exact (hwarned x hx).imp_left fun heq => by rw [heq]
    · rw [ho'] at hold
      cases hold
  · obtain ⟨p, hp, -, -, hplace, -⟩ | ⟨p, hp, -, -, hplace, -⟩ :=
      (stored q f.content hq).1 ⟨f, hf, rfl⟩
    · exact ⟨.fresh p false, mem_objectsOf.2 (.inl ⟨hp, rfl⟩), .inr ⟨rfl, hplace⟩⟩
    · rcases List.mem_append.1 hp with hp | hp
      · exact ⟨.fresh p false, mem_objectsOf.2 (.inl ⟨hp, rfl⟩), .inl hplace⟩
      · exact ⟨.fresh p true, mem_objectsOf.2 (.inr ⟨hp, rfl⟩), .inl hplace⟩

/-- Make compiles one object, in another way with the patches, and with them a second one. No other
tool does anything. -/
def sampleHost : Host where
  cwd := []
  home := "/root"
  machine := "x86_64"
  cpus := some 1
  environment := []
  hasTool _ := true
  react _ start d :=
    ⟨match start.mode with
      | .captured => d
      | .streamed env =>
        if (env.lookup "KBUILD_MODPOST_WARN").isSome then
          (d.store ["src", "a.o"] [2] 0).store ["src", "b.o"] [3] 0
        else d.store ["src", "a.o"] [1] 0,
      .ok ⟨0, none, none, none, true, [], 1, true, true, false⟩⟩

def sampleSite : Site where
  disk := ⟨[(["src"], .dir), (["work"], .dir),
    (["src", ".a.o.cmd"], .file ⟨Text.encode "cmd_a.o := gcc -c -o a.o a.c", 0, 0⟩),
    (["src", ".b.o.cmd"], .file ⟨Text.encode "cmd_b.o := gcc -c -o b.o b.c", 0, 1⟩)], 2⟩
  events := []
  records := []
  sinks := []
  console := []
  series := ⟨"/src", [], .pending, 0⟩

def sample : Differential :=
  ⟨.standard, "/src", "/work", .arr [.str "vmlinux"], .int 1, .arr []⟩

def sampleBaseline : Except Fault Fingerprints × Site := sample.baseline sampleHost sampleSite

def sampleRun : Except Fault Harvest × Site :=
  sample.instrumented (some (sampleBaseline.1.toOption.getD [])) sampleHost sampleBaseline.2

theorem pair_of_fst {α β : Type} {r : α × β} {a : α} (hr : r.1 = a) : r = (a, r.2) := hr ▸ rfl

theorem sample_work : Place.of sampleHost.cwd sample.work = ["work"] := by decide +kernel

theorem sample_leaves : sampleHost.Leaves (Place.of sampleHost.cwd sample.work) := by
  have ha : Place.IsProper ["src", "a.o"] := by decide
  have hb : Place.IsProper ["src", "b.o"] := by decide
  have outside : ∀ {q : Place} (n : String), ["work"] <+: q → q ≠ ["src", n] := by
    rintro _ n ⟨r, rfl⟩ heq
    exact absurd (List.cons.inj heq).1 (by decide)
  rw [sample_work]
  refine ⟨fun past start d hd => ?_, fun past start d q hd hq => ?_⟩
  · dsimp only [sampleHost]
    split
    · exact hd
    · split
      · exact (hd.store ha).store hb
      · exact hd.store ha
  · dsimp only [sampleHost]
    split
    · rfl
    · split
      · rw [Disk.node?_store_ne (outside _ hq), Disk.node?_store_ne (outside _ hq)]
      · rw [Disk.node?_store_ne (outside _ hq)]

theorem sample_ready (P : Fingerprints) : sample.Ready sampleHost P sampleBaseline.2 := by
  have hsound : sampleBaseline.2.disk.IsSound := by decide +kernel
  have hmade : sampleBaseline.2.disk.isDir sampleHost.cwd (clean sample.work) = true := by
    decide +kernel
  have hempty : ∀ x ∈ sampleBaseline.2.disk.nodes, ["work"] <+: x.1 → x.1 = ["work"] := by
    decide +kernel
  have hsinks : sampleBaseline.2.sinks.isEmpty = true := by decide +kernel
  refine ⟨hsound, hmade, fun q hq hne => ?_, fun q n hm => ?_⟩
  · rw [sample_work] at hq hne
    rw [Disk.node?, if_neg (by rintro rfl; exact absurd (List.prefix_nil.1 hq) (by decide))]
    cases hn : sampleBaseline.2.disk.nodes.lookup q with
    | none => rfl
    | some x => exact absurd (hempty _ ((lookup_iff_mem hsound.places).1 hn) hq) hne
  · rw [List.isEmpty_iff.1 hsinks] at hm
    cases hm

theorem instrumented_harvests_sample : ∃ B P v t' new,
    sampleBaseline = (.ok B, sampleBaseline.2) ∧
      sample.instrumented (some B) sampleHost sampleBaseline.2 = (.ok v, t') ∧
        Faithful sample sampleHost.cwd B P
          (sample.untilRestored B sampleHost sampleBaseline.2).2.disk t'.disk new v ∧
        (t'.disk.file? ["work", "orig", "a.o"]).map File.content = some [1] ∧
        (t'.disk.file? ["work", "patched", "a.o"]).map File.content = some [2] ∧
        (t'.disk.file? ["work", "patched", "b.o"]).map File.content = some [3] := by
  have hbaseline : sampleBaseline.1.toOption.isSome = true := by decide +kernel
  have hrun : sampleRun.1.toOption.isSome = true ∧
      (sampleRun.2.disk.file? ["work", "orig", "a.o"]).map File.content = some [1] ∧
      (sampleRun.2.disk.file? ["work", "patched", "a.o"]).map File.content = some [2] ∧
      (sampleRun.2.disk.file? ["work", "patched", "b.o"]).map File.content = some [3] := by
    decide +kernel
  have hprints : (Fingerprints.ofTree (sample.untilPatched sampleHost sampleBaseline.2).2.disk
      sampleHost.cwd sample.tree).toOption.isSome = true := by decide +kernel
  obtain ⟨B, hB⟩ := ok_of_isSome hbaseline
  obtain ⟨v, hv⟩ := ok_of_isSome hrun.1
  obtain ⟨P, hP⟩ := ok_of_isSome hprints
  have hr : sample.instrumented (some B) sampleHost sampleBaseline.2 = (.ok v, sampleRun.2) := by
    rw [← pair_of_fst hv, sampleRun, hB, Except.toOption, Option.getD_some]
  obtain ⟨new, -, hnew⟩ :=
    instrumented_harvests (by decide) sample_leaves (sample_ready P) hr hP
  exact ⟨B, P, v, sampleRun.2, new, pair_of_fst hB, hr, hnew, hrun.2⟩

end Differential

end Hotpatch
