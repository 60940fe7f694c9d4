import Hotpatch.Proofs.Robust

/-! What the two builds of a run collect. The names of objects and core files are read off the tree;
they are put together to the paths to which the files are taken. -/

namespace Hotpatch

open Act

variable {h : Host} {mine seen : String → Prop} {I : Site → Prop}

/-- A path made of names that may be in the tree. -/
def Named (seen : String → Prop) (p : String) : Prop :=
  ∃ ns : List String, (∀ n ∈ ns, seen n) ∧ p = "/".intercalate ns

namespace Fingerprints

theorem named_of_mem {d : Disk} {cwd : Place} {tree : String} {fs : Fingerprints}
    (hd : ∀ q ∈ d.nodes, ∀ n ∈ q.1, seen n) (hfs : ofTree d cwd tree = .ok fs) :
    ∀ f ∈ fs, Named seen f.1 := by
  intro f hf
  rw [ofTree] at hfs
  split at hfs
  · cases hfs
    obtain ⟨⟨names, node⟩, hr, hx⟩ := List.mem_filterMap.1 hf
    obtain ⟨hmem, -⟩ := Disk.mem_beneath.1 hr
    cases node with
    | dir => cases hx
    | file g =>
      rw [fingerprintAt?] at hx
      split at hx
      · cases hx
        exact ⟨names, fun n hn => hd _ hmem n (List.mem_append_right _ hn), rfl⟩
      · cases hx
  · cases hfs
  · cases hfs
    cases hf

theorem compare_mem {before after : Fingerprints} {p : String}
    (hp : p ∈ (compare before after).changed ∨ p ∈ (compare before after).new) :
    ∃ f ∈ after, f.1 = p := by
  rcases hp with hp | hp
  · rw [compare, List.mem_mergeSort, List.mem_map] at hp
    obtain ⟨f, hf, rfl⟩ := hp
    exact ⟨f, (List.mem_filter.1 hf).1, rfl⟩
  · rw [compare, List.mem_mergeSort, List.mem_map] at hp
    obtain ⟨f, hf, rfl⟩ := hp
    exact ⟨f, (List.mem_filter.1 hf).1, rfl⟩

end Fingerprints

namespace Differential

variable {b : Differential}

theorem latest_mem {c : String × Int} : ∀ {cs : List (String × Int)}, latest cs = some c → c ∈ cs
  | [], hc => nomatch hc
  | a :: cs, hc => by
    rw [latest] at hc
    split at hc
    · cases hc
      exact .head _
    · next e he =>
      split at hc
      · cases hc
        exact .tail _ (latest_mem he)
      · cases hc
        exact .head _

theorem mem_cores {d : Disk} {place : Place} {c : String × Int} (hc : c ∈ cores d place) :
    isCoreName c.1 = true ∧ ∃ q ∈ d.nodes, c.1 ∈ q.1 := by
  obtain ⟨n, hn, hc⟩ := List.mem_filterMap.1 hc
  obtain ⟨hn, hcore⟩ := List.mem_filter.1 hn
  obtain ⟨f, -, rfl⟩ := Option.map_eq_some_iff.1 hc
  obtain ⟨x, hx⟩ := Disk.mem_names hn
  exact ⟨hcore, _, hx, List.mem_append_right _ List.mem_cons_self⟩

end Differential

theorem Heard.announce (hI : Heard h I) (undefined : List String) (c : Fingerprints.Comparison) :
    Keeps h I (Differential.announce undefined c) := by
  refine (Keeps.forM (fun _ => hI.info _ _) _).bind fun _ => ?_
  refine (Keeps.forM (fun _ => hI.info _ _) _).bind fun _ => ?_
  split
  · exact hI.debug _ _
  · exact .pure _

namespace Robust

open Differential

variable {b : Differential}

section Reading

variable (hI : Robust h mine seen I)
include hI

theorem snapshot (tree : String) :
    Yields h I (Fingerprints.snapshot tree) (fun fs t => (∀ f ∈ fs, Named seen f.1) ∧ I t) I := by
  have taken : Yields h I (query fun d w => Fingerprints.ofTree d w tree)
      (fun fs t => (∀ f ∈ fs, Named seen f.1) ∧ I t) I := by
    refine .of_eq fun t ht => ?_
    rw [query_apply]
    rcases hfs : Fingerprints.ofTree t.disk h.cwd tree with e | fs
    · exact .inr ⟨_, t, rfl, ht⟩
    · exact .inl ⟨fs, t, rfl, Fingerprints.named_of_mem (hI.names t ht) hfs, ht⟩
  refine taken.bind fun fs => Yields.given ?_
  intro hfs
  exact ((hI.debug _ _).yields fun _ => id).bind fun _ => .pure fun t ht => ⟨hfs, ht⟩

theorem preserveCore
    (hc : ∀ name, isCoreName name = true → seen name → Within mine (under b.work name)) :
    Keeps h I b.preserveCore := by
  refine (Yields.bind (S := fun c t => (∀ n time, c = some (n, time) →
    isCoreName n = true ∧ seen n) ∧ I t) (V := fun _ => I) (E := I) ?_ fun c => ?_).leads
      (fun _ _ => id) fun _ => id
  · refine .of_eq fun t ht => .inl ⟨_, _, ask_apply _ _ _, fun n time hn => ?_, ht⟩
    split at hn
    · obtain ⟨hcore, q, hq, hm⟩ := mem_cores (latest_mem hn)
      exact ⟨hcore, hI.names t ht q hq n hm⟩
    · cases hn
  refine Yields.given ?_
  intro hm
  cases c with
  | none => exact .pure fun _ => id
  | some c =>
    obtain ⟨name, time⟩ := c
    obtain ⟨hcore, hseen⟩ := hm name time rfl
    refine ((hI.ensureDirectory _).bind fun _ => ?_).yields fun _ => id
    exact (hI.move _ _ _ hcore hseen (hc name hcore hseen)).bind fun _ => .pure _

theorem stageAll {target : String} : ∀ ps : List String, (∀ p ∈ ps, Within mine (under target p)) →
    Keeps h I (b.stageAll target ps)
  | [], _ => .pure _
  | p :: ps, hp => (hI.stage (hp p (.head _))).bind fun _ =>
    stageAll ps fun q hq => hp q (.tail _ hq)

theorem stageOriginals (before restored : Fingerprints) : ∀ ps : List String,
    (∀ p ∈ ps, Within mine (under b.original p)) → Keeps h I (b.stageOriginals before restored ps)
  | [], _ => .pure _
  | p :: ps, hp =>
    Keeps.guard (hI.warning _ _) fun _ => (hI.stage (hp p (.head _))).bind fun _ =>
      stageOriginals before restored ps fun q hq => hp q (.tail _ hq)

end Reading

end Robust

end Hotpatch
