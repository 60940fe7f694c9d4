import Hotpatch.Module.Aggregate
import Hotpatch.Proofs.Kbuild.Words

/-! Which paths the patterns take. A star stands for any text, so a pattern without one takes itself
alone, and one with a star takes what begins and ends as it does. The objects that are left out and
those that are linked straight into the kernel image are told by such beginnings and ends, on every
text. -/

namespace Hotpatch

namespace Text.Wildcard

variable {pre suf cs : List Char}

theorem matchesChars_nil (cs : List Char) : matchesChars [] cs = true ↔ cs = [] := by
  cases cs <;> simp [matchesChars]

/-- What is no star stands for itself. -/
theorem matchesChars_plain (h : '*' ∉ pre) (ps cs : List Char) :
    matchesChars (pre ++ ps) cs = true ↔ ∃ rest, cs = pre ++ rest ∧ matchesChars ps rest = true := by
  induction pre generalizing cs with
  | nil => simp
  | cons p pre ih =>
    rw [List.mem_cons, not_or] at h
    have hp : ¬ p = '*' := Ne.symm h.1
    cases cs with
    | nil => simp [matchesChars, hp]
    | cons c cs =>
      simp only [List.cons_append, matchesChars, if_neg hp, Bool.and_eq_true, decide_eq_true_eq,
        ih h.2]
      constructor
      · rintro ⟨rfl, rest, rfl, hrest⟩
        exact ⟨rest, rfl, hrest⟩
      · rintro ⟨rest, heq, hrest⟩
        obtain ⟨rfl, rfl⟩ := List.cons.inj heq
        exact ⟨rfl, rest, rfl, hrest⟩

/-- A star passes over any beginning. -/
theorem matchesChars_star (ps cs : List Char) :
    matchesChars ('*' :: ps) cs = true ↔
      ∃ mid rest, cs = mid ++ rest ∧ matchesChars ps rest = true := by
  induction cs with
  | nil =>
    simp only [matchesChars, decide_true, Bool.true_and]
    constructor
    · exact fun h => ⟨[], [], rfl, h⟩
    · rintro ⟨mid, rest, heq, hrest⟩
      obtain ⟨-, rfl⟩ := List.append_eq_nil_iff.1 heq.symm
      exact hrest
  | cons c cs ih =>
    simp only [matchesChars, if_pos, Bool.or_eq_true, ih]
    constructor
    · rintro (h | ⟨mid, rest, rfl, hrest⟩)
      · exact ⟨[], c :: cs, rfl, h⟩
      · exact ⟨c :: mid, rest, rfl, hrest⟩
    · rintro ⟨mid, rest, heq, hrest⟩
      cases mid with
      | nil => exact .inl (by rwa [heq])
      | cons d mid =>
        obtain ⟨-, rfl⟩ := List.cons.inj heq
        exact .inr ⟨mid, rest, rfl, hrest⟩

theorem matchesChars_self (h : '*' ∉ pre) (cs : List Char) :
    matchesChars pre cs = true ↔ cs = pre := by
  have hplain := matchesChars_plain h [] cs
  rw [List.append_nil] at hplain
  simp only [hplain, matchesChars_nil, exists_eq_right, List.append_nil]

theorem matchesChars_around (hpre : '*' ∉ pre) (hsuf : '*' ∉ suf) (cs : List Char) :
    matchesChars (pre ++ '*' :: suf) cs = true ↔ ∃ mid, cs = pre ++ (mid ++ suf) := by
  simp only [matchesChars_plain hpre, matchesChars_star, matchesChars_self hsuf]
  constructor
  · rintro ⟨_, rfl, mid, _, rfl, rfl⟩
    exact ⟨mid, rfl⟩
  · rintro ⟨mid, rfl⟩
    exact ⟨_, rfl, mid, _, rfl, rfl⟩

section Texts

variable {a b : String}

theorem matches_self (h : '*' ∉ a.toList) (s : String) : «matches» a s = true ↔ s = a := by
  rw [«matches», matchesChars_self h, String.toList_inj]

theorem matches_around (ha : '*' ∉ a.toList) (hb : '*' ∉ b.toList) (s : String) :
    «matches» (a ++ "*" ++ b) s = true ↔ ∃ mid, s = a ++ mid ++ b := by
  have hchars : (a ++ "*" ++ b).toList = a.toList ++ '*' :: b.toList := by simp
  rw [«matches», hchars, matchesChars_around ha hb]
  constructor
  · rintro ⟨mid, hs⟩
    exact ⟨String.ofList mid, by rw [← String.toList_inj, hs]; simp⟩
  · rintro ⟨mid, rfl⟩
    exact ⟨mid.toList, by simp⟩

/-- A star at the end takes every text that begins as the pattern does. -/
theorem matches_begin (ha : '*' ∉ a.toList) (s : String) :
    «matches» (a ++ "*") s = true ↔ ∃ rest, s = a ++ rest := by
  have haround := matches_around ha (b := "") (by simp) s
  simpa using haround

variable {qs : List String}

theorem any_matches_self (h : ∀ q ∈ qs, '*' ∉ q.toList) (s : String) :
    qs.any (Wildcard.matches · s) = true ↔ s ∈ qs := by
  rw [List.any_eq_true]
  constructor
  · rintro ⟨q, hq, hs⟩
    rwa [(matches_self (h q hq) s).1 hs]
  · exact fun hs => ⟨s, hs, (matches_self (h s hs) s).2 rfl⟩

theorem any_matches_begin (h : ∀ q ∈ qs, '*' ∉ q.toList) (s : String) :
    (qs.map (· ++ "*")).any (Wildcard.matches · s) = true ↔ ∃ q ∈ qs, ∃ rest, s = q ++ rest := by
  rw [List.any_map, List.any_eq_true]
  exact exists_congr fun q => and_congr_right fun hq => matches_begin (h q hq) s

end Texts

end Text.Wildcard

/-- The last component of a path is all of it, or what stands behind a slash. -/
theorem basename_eq_iff {n : String} (hn : '/' ∉ n.toList) (s : String) :
    basename s = n ↔ s = n ∨ ∃ dir, s = dir ++ "/" ++ n := by
  constructor
  · rintro rfl
    rw [basename, Text.cutLast?]
    rcases hc : Text.cut? '/' s.toList.reverse with _ | ⟨as, bs⟩
    · exact .inl rfl
    · have hchars : s.toList = bs.reverse ++ '/' :: as.reverse := by
        rw [← List.reverse_reverse s.toList, (Text.cut?_some hc).1]
        simp
      refine .inr ⟨String.ofList bs.reverse, ?_⟩
      rw [← String.toList_inj, hchars]
      simp
  · rintro (rfl | ⟨dir, rfl⟩)
    · exact basename_of_whole hn
    · have hchars : (dir ++ "/" ++ n).toList = dir.toList ++ '/' :: n.toList := by simp
      exact basename_of_slash hchars hn

namespace Aggregate

/-- The beginnings of what is left out. -/
def starts : List String := [
  "arch/x86/boot/", "arch/x86/entry/vdso/", "arch/x86/realmode/", "arch/x86/purgatory/",
  "arch/powerpc/kernel/vdso", "drivers/firmware/efi/libstub/"]

theorem isExcluded_iff (p : String) : isExcluded p = true ↔
    p ∈ ["usr/initramfs_data.o", "init/version.o"] ∨ ∃ start ∈ starts, ∃ rest, p = start ++ rest := by
  have hexcluded : excluded =
      ["usr/initramfs_data.o", "init/version.o"] ++ starts.map (· ++ "*") := by
    decide
  rw [isExcluded, hexcluded, List.any_append, Bool.or_eq_true,
    Text.Wildcard.any_matches_self (by decide), Text.Wildcard.any_matches_begin (by decide)]

end Aggregate

namespace Kbuild

theorem isAggregate_iff (p : String) : aggregates.contains (basename p) = true ↔
    ∃ name ∈ aggregates, p = name ∨ ∃ dir, p = dir ++ "/" ++ name := by
  have hwhole : ∀ name ∈ aggregates, '/' ∉ name.toList := by decide
  rw [List.contains_iff_mem]
  constructor
  · exact fun h => ⟨basename p, h, (basename_eq_iff (hwhole _ h) p).1 rfl⟩
  · rintro ⟨name, hname, hp⟩
    rwa [(basename_eq_iff (hwhole name hname) p).2 hp]

theorem isImagePart_iff (p : String) : isImagePart p = true ↔
    (∃ name ∈ aggregates, p = name ∨ ∃ dir, p = dir ++ "/" ++ name) ∨
      p ∈ ["vmlinux.o", "vmlinux.a", "lib/lib.a", "arch/x86/lib/lib.a", "arch/x86/kernel/ebda.o",
        "arch/x86/kernel/platform-quirks.o"] ∨
      ∃ mid, p = "arch/x86/kernel/head" ++ mid ++ ".o" := by
  have hparts : imageParts =
      ["vmlinux.o", "vmlinux.a", "lib/lib.a", "arch/x86/lib/lib.a"] ++
        ["arch/x86/kernel/head" ++ "*" ++ ".o"] ++
        ["arch/x86/kernel/ebda.o", "arch/x86/kernel/platform-quirks.o"] := by
    decide
  have hhead : ["arch/x86/kernel/head" ++ "*" ++ ".o"].any (Text.Wildcard.matches · p) = true ↔
      ∃ mid, p = "arch/x86/kernel/head" ++ mid ++ ".o" := by
    rw [List.any_cons, List.any_nil, Bool.or_false]
    exact Text.Wildcard.matches_around (by decide) (by decide) p
  have hplain : ∀ qs : List String, (∀ q ∈ qs, '*' ∉ q.toList) →
      (qs.any (Text.Wildcard.matches · p) = true ↔ p ∈ qs) :=
    fun _ h => Text.Wildcard.any_matches_self h p
  rw [isImagePart, Bool.or_eq_true, isAggregate_iff, hparts, List.any_append, List.any_append,
    Bool.or_eq_true, Bool.or_eq_true, hhead, hplain _ (by decide), hplain _ (by decide),
    or_right_comm (a := p ∈ _), ← List.mem_append]
  rfl

end Kbuild

/-- Which objects are left out of the comparison, and which are linked straight into the kernel image,
whatever is in their paths. -/
theorem paths_classified (p : String) :
    (Aggregate.isExcluded p = true ↔
      p ∈ ["usr/initramfs_data.o", "init/version.o"] ∨
      ∃ start ∈ ["arch/x86/boot/", "arch/x86/entry/vdso/", "arch/x86/realmode/",
        "arch/x86/purgatory/", "arch/powerpc/kernel/vdso", "drivers/firmware/efi/libstub/"],
        ∃ rest, p = start ++ rest) ∧
    (Kbuild.isImagePart p = true ↔
      (∃ name ∈ ["built-in.o", "built-in.a"], p = name ∨ ∃ dir, p = dir ++ "/" ++ name) ∨
      p ∈ ["vmlinux.o", "vmlinux.a", "lib/lib.a", "arch/x86/lib/lib.a", "arch/x86/kernel/ebda.o",
        "arch/x86/kernel/platform-quirks.o"] ∨
      ∃ mid, p = "arch/x86/kernel/head" ++ mid ++ ".o") :=
  ⟨Aggregate.isExcluded_iff p, Kbuild.isImagePart_iff p⟩

end Hotpatch
