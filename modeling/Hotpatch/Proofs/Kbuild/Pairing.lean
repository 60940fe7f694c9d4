import Hotpatch.Proofs.Kbuild.Roundtrip

/-! Records and targets go together one by one. The record of a path in the tree has this path for its
target, and a file that is named like a record is the record of its target, so two records never
describe the same target. A file with another name has no target, but for one that is named by the
ending alone: its target is the directory it stands in. -/

namespace Hotpatch

/-- A file stands in its directory under its name. -/
theorem Place.of_file {cwd : Place} {f n : String} (hn : IsEntry n) (h : fileName f = n) :
    Place.of cwd f = Place.of cwd (parent f) ++ [n] := by
  have hparts : (Path.ofText f).parts = (Path.ofText f).parts.dropLast ++ [n] := by
    rw [fileName] at h
    rcases List.eq_nil_or_concat (Path.ofText f).parts with hnil | ⟨ms, m, hms⟩
    · rw [hnil] at h
      exact absurd h.symm hn.filled
    · rw [List.concat_eq_append] at hms
      rw [hms, List.getLast?_concat, Option.getD_some] at h
      rw [hms, List.dropLast_concat, h]
  rw [parent, Place.of_upTo (List.dropLast_prefix _), Place.of, hparts, Place.along_append,
    Place.along_single hn.stays, List.dropLast_concat]
  rfl

theorem fileName_whole (f : String) : '/' ∉ (fileName f).toList := by
  rw [fileName]
  rcases hl : (Path.ofText f).parts.getLast? with _ | n
  · simp
  · exact ((Path.ofText_proper f).parts n (List.mem_of_getLast? hl)).whole

namespace Kbuild

variable {cwd ns : Place} {f n p source : String}

/-- A file in the tree that is named as the record of something that can be linked. -/
structure IsRecord (cwd : Place) (source f n : String) : Prop where
  inside : Place.of cwd source <+: Place.of cwd (parent f)
  named : fileName f = "." ++ n ++ ".cmd"
  part : isPart n = true

instance (cwd : Place) (source f n : String) : Decidable (IsRecord cwd source f n) :=
  decidable_of_iff (Place.of cwd source <+: Place.of cwd (parent f) ∧
      fileName f = "." ++ n ++ ".cmd" ∧ isPart n = true)
    ⟨fun h => ⟨h.1, h.2.1, h.2.2⟩, fun h => ⟨h.inside, h.named, h.part⟩⟩

theorem IsRecord.entry (h : IsRecord cwd source f n) : IsEntry n := by
  obtain ⟨hfilled, hmoves, hstays⟩ := isPart_filled h.part
  refine ⟨⟨hfilled, hmoves, fun hslash => fileName_whole f ?_⟩, hstays⟩
  rw [h.named, toList_recordName]
  exact List.mem_cons_of_mem _ (List.mem_append_left _ hslash)

/-- Where a record stands in the tree, and what its target is. -/
theorem IsRecord.below (hc : cwd.IsProper) (h : IsRecord cwd source f n) :
    ∃ ns, Place.IsProper (ns ++ [n]) ∧ Place.of cwd (parent f) = Place.of cwd source ++ ns ∧
      target? cwd f source = some (Path.text ⟨0, ns ++ [n]⟩) := by
  obtain ⟨ns, hns⟩ := h.inside
  have hproper : Place.IsProper (ns ++ [n]) := by
    intro m hm
    rcases List.mem_append.1 hm with hm | hm
    · exact Place.of_proper hc (parent f) m (hns ▸ List.mem_append_right _ hm)
    · rw [List.mem_singleton.1 hm]
      exact h.entry
  exact ⟨ns, hproper, hns.symm, target?_below hc hproper hns.symm h.named⟩

theorem recordOf_record (hp : IsInner p) (hpart : isPart p = true) (source : String) :
    IsRecord cwd source (recordOf source p) (basename p) := by
  obtain ⟨ms, hms, hne, rfl⟩ := hp
  obtain ⟨ns, n, rfl⟩ := (List.eq_nil_or_concat ms).resolve_left hne
  rw [List.concat_eq_append] at hms hpart ⊢
  have hns : Place.IsProper ns := fun m hm => hms m (List.mem_append_left _ hm)
  have hname := (isEntry_recordName (hms n (by simp)).toIsName).toIsName
  rw [recordOf_inner hms, basename_inner hms.names]
  refine ⟨?_, fileName_under hname, ?_⟩
  · rw [Place.of_parent hname, Place.of_under_inner hns]
    exact List.prefix_append _ _
  · rwa [isPart_concat hms.names] at hpart

theorem under_inner_concat {m : String} (h : Place.IsProper (ns ++ [m])) (source : String) :
    under source (Path.text ⟨0, ns ++ [m]⟩) = under (under source (Path.text ⟨0, ns⟩)) m := by
  have hns : ∀ k ∈ ns, Path.IsName k := fun k hk => h.names k (List.mem_append_left _ hk)
  have hm : Path.IsName m := h.names m (by simp)
  rw [← text_under source, ← text_under _ m, ofText_under (isAbsolute_inner h.names),
    ofText_under (isAbsolute_name hm), ofText_under (isAbsolute_inner hns),
    Path.ofText_inner h.names, Path.ofText_inner hns, parts_ofText_name hm, List.append_assoc]

/-- A record is the record of its target. -/
theorem IsRecord.paired (hc : cwd.IsProper) (h : IsRecord cwd source f n) :
    ∃ p, IsInner p ∧ isPart p = true ∧ basename p = n ∧ target? cwd f source = some p ∧
      Place.of cwd (recordOf source p) = Place.of cwd f ∧
      ∀ q, IsInner q → f = under source q → recordOf source p = f := by
  obtain ⟨ns, hproper, hdir, htarget⟩ := h.below hc
  have hns : Place.IsProper ns := fun m hm => hproper m (List.mem_append_left _ hm)
  have hname := isEntry_recordName h.entry.toIsName
  have hpart : isPart (Path.text ⟨0, ns ++ [n]⟩) = true := by
    rw [isPart_concat hproper.names, h.part]
  refine ⟨Path.text ⟨0, ns ++ [n]⟩, ⟨_, hproper, by simp, rfl⟩, hpart,
    basename_inner hproper.names, htarget, ?_, ?_⟩
  · rw [recordOf_inner hproper, Place.of_under_entry hname, Place.of_under_inner hns,
      Place.of_file hname h.named, hdir]
  · rintro q ⟨qs, hqs, hne, rfl⟩ rfl
    obtain ⟨ms, m, rfl⟩ := (List.eq_nil_or_concat qs).resolve_left hne
    rw [List.concat_eq_append] at hqs hdir ⊢
    have hms : Place.IsProper ms := fun k hk => hqs k (List.mem_append_left _ hk)
    have hm : Path.IsName m := hqs.names m (by simp)
    have hfile := h.named
    rw [List.concat_eq_append, under_inner_concat hqs, fileName_under hm] at hfile
    rw [under_inner_concat hqs, Place.of_parent hm, Place.of_under_inner hms,
      List.append_cancel_left_eq] at hdir
    rw [recordOf_inner hproper, under_inner_concat hqs, hfile, hdir]

/-- A file whose name is the ending alone is taken for the record of its directory. -/
theorem target?_untitled (hc : cwd.IsProper) (hns : ns.IsProper)
    (hdir : Place.of cwd (parent f) = Place.of cwd source ++ ns) (hname : fileName f = ".cmd") :
    target? cwd f source = some ("/".intercalate ns) := by
  have hchars : ".cmd".toList = '.' :: "cmd".toList := rfl
  have hends : Text.ends ".cmd" (String.ofList ('.' :: "cmd".toList)) = true := by decide
  have htitle : String.ofList ("cmd".toList.take ("cmd".toList.length - 4)) = "" := rfl
  rw [target?, hname, hchars, relative_below hc hns hdir]
  simp only [hends, if_true, htitle, Option.some.injEq]
  rcases eq_or_ne ns [] with rfl | hne
  · rfl
  · have hglue := ofText_glue (a := Path.text ⟨0, ns⟩) (show isAbsolute "" = false by decide)
    have hempty : (Path.ofText "").parts = [] := by decide
    rw [hempty, List.append_nil] at hglue
    rw [if_neg fun hdot => hne ((Path.inner_eq_dot hns.names).1 hdot), normalize, hglue,
      Path.ofText_inner hns.names, ← Path.inner_eq hns.names hne]
    exact congrArg (fun ms => Path.text ⟨0, ms⟩)
      (Path.collapse_of_entries _ fun m hm => (hns m hm).stays)

/-- Only the names of records have a target, with or without something before the ending. -/
theorem target?_eq_none_iff (cwd : Place) (f source : String) : target? cwd f source = none ↔
    fileName f ≠ ".cmd" ∧ ∀ n, fileName f ≠ "." ++ n ++ ".cmd" := by
  constructor
  · intro h
    refine ⟨fun hname => ?_, fun n hname => ?_⟩
    · have hends : Text.ends ".cmd" ".cmd" = true := by decide
      rw [target?, hname] at h
      simp [hends] at h
    · rw [target?_of_name hname] at h
      cases h
  · rintro ⟨hbare, hnamed⟩
    unfold target?
    dsimp only
    split
    · next rest hname =>
      rw [if_neg]
      intro hends
      rw [String.ofList_toList, Text.ends, List.isSuffixOf_iff_suffix, hname] at hends
      obtain ⟨as, has⟩ := hends
      -- the ending begins with the dot itself, or behind it
      cases as with
      | nil => exact hbare (String.toList_inj.1 (hname.trans has.symm))
      | cons a as =>
        have hrest : as ++ ".cmd".toList = rest := (List.cons.inj has).2
        refine hnamed (String.ofList as) ?_
        rw [← String.toList_inj, toList_recordName, hname, ← hrest, @String.toList_ofList as]
    · rfl

/-- Every path in the tree is the target of its record, every record is that of its target, and no two
of them share one. What is not named like a record has no target, unless its name is the ending of
records alone: such a file has its directory for a target. -/
theorem records_paired (hc : cwd.IsProper) (source : String) :
    (∀ p, IsInner p → isPart p = true →
      IsRecord cwd source (recordOf source p) (basename p) ∧
      target? cwd (recordOf source p) source = some p) ∧
    (∀ f n, IsRecord cwd source f n → ∃ p, IsInner p ∧ isPart p = true ∧ basename p = n ∧
      target? cwd f source = some p ∧
      Place.of cwd (recordOf source p) = Place.of cwd f ∧
      ∀ q, IsInner q → f = under source q → recordOf source p = f) ∧
    (∀ f g n m, IsRecord cwd source f n → IsRecord cwd source g m →
      target? cwd f source = target? cwd g source → Place.of cwd f = Place.of cwd g) ∧
    (∀ f, target? cwd f source = none ↔
      fileName f ≠ ".cmd" ∧ ∀ n, fileName f ≠ "." ++ n ++ ".cmd") ∧
    ∀ f ns, fileName f = ".cmd" → Place.IsProper ns →
      Place.of cwd (parent f) = Place.of cwd source ++ ns →
      target? cwd f source = some ("/".intercalate ns) := by
  refine ⟨fun p hp hpart => ⟨recordOf_record hp hpart source, ?_⟩, fun f n h => h.paired hc,
    fun f g n m hf hg heq => ?_, fun f => target?_eq_none_iff cwd f source,
    fun f ns hname hns hdir => target?_untitled hc hns hdir hname⟩
  · obtain ⟨ms, hms, hne, rfl⟩ := hp
    obtain ⟨ns, n, rfl⟩ := (List.eq_nil_or_concat ms).resolve_left hne
    rw [List.concat_eq_append] at hms ⊢
    rw [recordOf_inner hms]
    exact target?_recordOf hc hms source
  · -- both stand where the record of the one target does
    obtain ⟨p, -, -, -, hp, hplace, -⟩ := hf.paired hc
    obtain ⟨q, -, -, -, hq, hplace', -⟩ := hg.paired hc
    rw [hp, hq, Option.some.injEq] at heq
    rw [← hplace, ← hplace', heq]

/-- A path with its record, a record that is named by a roundabout path and whose target is all ending,
and the bare ending, which stands for a directory. -/
theorem records_paired_sample :
    Place.IsProper ["w"] ∧
    target? ["w"] "linux/drivers/x/.foo.o.cmd" "linux" = some "drivers/x/foo.o" ∧
    (∃ p, target? ["w"] "linux/../linux/lib/..a.cmd" "linux" = some p ∧ basename p = ".a" ∧
      Place.of ["w"] (recordOf "linux" p) = ["w", "linux", "lib", "..a.cmd"]) ∧
    target? ["w"] "linux/drivers/x/foo.o.cmd" "linux" = none ∧
    target? ["w"] "linux/x.o/.cmd" "linux" = some "x.o" := by
  have hc : Place.IsProper ["w"] := by decide
  obtain ⟨hto, hfrom, -, hnone, huntitled⟩ := records_paired hc "linux"
  refine ⟨hc, ?_, ?_, (hnone _).2 ⟨by decide, fun n hn => ?_⟩, ?_⟩
  · have hrecord : recordOf "linux" "drivers/x/foo.o" = "linux/drivers/x/.foo.o.cmd" := by
      decide +kernel
    rw [← hrecord]
    exact (hto "drivers/x/foo.o" (by decide +kernel) (by decide)).2
  · obtain ⟨p, -, -, hbase, hp, hplace, -⟩ :=
      hfrom "linux/../linux/lib/..a.cmd" ".a" (by decide +kernel)
    exact ⟨p, hp, hbase, hplace.trans (by decide +kernel)⟩
  · have hdot : (fileName "linux/drivers/x/foo.o.cmd").toList.head? = some '.' := by
      rw [hn, toList_recordName]
      rfl
    exact absurd hdot (by decide +kernel)
  · exact huntitled "linux/x.o/.cmd" ["x.o"] (by decide +kernel) (by decide) (by decide +kernel)

end Kbuild

end Hotpatch
