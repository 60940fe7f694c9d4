import Hotpatch.Proofs.Module

/-! Names of patch modules. Whatever a name is made from, the kernel can take it for a module of its mode,
and given again it stays as it is. Only a patch file without a title of its own gives no name. -/

namespace Hotpatch

theorem Text.cutLast?_some {c : Char} {cs as bs : List Char}
    (h : Text.cutLast? c cs = some (as, bs)) : cs = as ++ c :: bs ∧ c ∉ bs := by
  obtain ⟨⟨xs, ys⟩, hcut, heq⟩ := Option.map_eq_some_iff.1 h
  cases heq
  obtain ⟨hcs, hmem⟩ := Text.cut?_some hcut
  refine ⟨?_, by simpa using hmem⟩
  rw [List.reverse_eq_iff.1 hcs]
  simp

theorem Text.cutLast?_none {c : Char} {cs : List Char} (h : Text.cutLast? c cs = none) : c ∉ cs := by
  simpa using Text.cut?_none (Option.map_eq_none_iff.1 h)

namespace ModuleName

/-- The kernel takes a name for that of a module of a mode. -/
structure IsValid (native : Bool) (name : String) : Prop where
  fits : name.length ≤ 55
  plain : ∀ c ∈ name.toList, c.isAlphanum = true ∨ c = '_' ∨ c = '-'
  marked : (if native then "livepatch-" else "kpatch-").toList <+: name.toList

/-- A file whose name is nothing but an extension, or that has no name. -/
def IsUntitled (path : String) : Prop :=
  fileName path = "" ∨ ∃ ext : List Char, (fileName path).toList = '.' :: ext ∧ '.' ∉ ext

section Fit

variable {native : Bool} {cs : List Char}

theorem isAllowed_iff (c : Char) :
    isAllowed c = true ↔ c.isAlphanum = true ∨ c = '_' ∨ c = '-' := by
  have hupper : c.isUpper = true ↔ 'A' ≤ c ∧ c ≤ 'Z' := decide_eq_true_iff
  have hlower : c.isLower = true ↔ 'a' ≤ c ∧ c ≤ 'z' :=
    Bool.and_eq_true_iff.trans (and_congr decide_eq_true_iff decide_eq_true_iff)
  have hdigit : c.isDigit = true ↔ '0' ≤ c ∧ c ≤ '9' :=
    Bool.and_eq_true_iff.trans (and_congr decide_eq_true_iff decide_eq_true_iff)
  have halphanum : c.isAlphanum = (c.isUpper || c.isLower || c.isDigit) := rfl
  simp only [isAllowed, halphanum, hupper, hlower, hdigit, Bool.or_eq_true, Bool.and_eq_true,
    decide_eq_true_eq, or_assoc]

theorem mark_eq (native : Bool) :
    mark native = (if native then "livepatch-" else "kpatch-").toList := by
  cases native <;> rfl

theorem length_mark_le (native : Bool) : (mark native).length ≤ longest := by
  cases native <;> decide

theorem length_fit_le (native : Bool) (cs : List Char) : (fit native cs).length ≤ longest := by
  rw [fit, List.length_take]
  exact Nat.min_le_left _ _

/-- The mark is put first where it is missing, and is never cut off. -/
theorem mark_prefix_fit (native : Bool) (cs : List Char) : mark native <+: fit native cs := by
  rw [fit]
  refine List.prefix_take_iff.2 ⟨?_, length_mark_le native⟩
  split
  next hmarked => exact List.isPrefixOf_iff_prefix.1 hmarked
  next => exact List.prefix_append _ _

theorem fit_of_marked (hm : mark native <+: cs) (hl : cs.length ≤ longest) : fit native cs = cs := by
  rw [fit, if_pos (List.isPrefixOf_iff_prefix.2 hm), List.take_of_length_le hl]

end Fit

section Make

variable {patches : List String} {name : Option String} {native : Bool} {n path : String}

theorem valid_of_make (h : make patches name native = .ok n) : IsValid native n := by
  have hplain := isAllowed_of_make h
  rw [make] at h
  split at h
  · cases h
  · cases h
    refine ⟨?_, fun c hc => (isAllowed_iff c).1 (hplain c hc), ?_⟩
    · rw [String.length_ofList]
      exact length_fit_le _ _
    · rw [String.toList_ofList, ← mark_eq]
      exact mark_prefix_fit _ _

/-- A valid name is made of itself. -/
theorem make_of_valid (h : IsValid native n) (patches : List String) :
    make patches (some n) native = .ok n := by
  have hmarked : mark native <+: n.toList := mark_eq native ▸ h.marked
  have hfull : n.toList ≠ [] := by
    intro hnil
    rw [hnil, List.prefix_nil] at hmarked
    cases native <;> cases hmarked
  have hname : n ≠ "" := fun hn => hfull (String.toList_eq_nil_iff.2 hn)
  have hkept : n.toList.map (fun c => if isAllowed c then c else '-') = n.toList :=
    (List.map_congr_left fun c hc => if_pos ((isAllowed_iff c).2 (h.plain c hc))).trans
      (List.map_id _)
  have hbase : base patches (some n) = n.toList := if_pos hname
  have hlength : n.toList.length ≤ longest := h.fits
  rw [make, hbase, hkept, if_neg (by simpa using hfull), fit_of_marked hmarked hlength, String.ofList_toList]

/-- Without a title of its own, a file gives no name. -/
theorem ofFile_eq_nil (path : String) : ofFile path = [] ↔ IsUntitled path := by
  rw [ofFile, IsUntitled]
  rcases hcut : Text.cutLast? '.' (fileName path).toList with _ | ⟨as, bs⟩
  · have hdot := Text.cutLast?_none hcut
    dsimp only
    rw [String.toList_eq_nil_iff]
    refine ⟨.inl, fun h => h.resolve_right ?_⟩
    rintro ⟨ext, hext, -⟩
    exact hdot (by rw [hext]; exact List.mem_cons_self)
  · obtain ⟨hname, hdot⟩ := Text.cutLast?_some hcut
    dsimp only
    refine ⟨fun has => .inr ⟨bs, by rw [hname, has]; rfl, hdot⟩, ?_⟩
    rintro (hnone | ⟨ext, hext, hplain⟩)
    · rw [hnone] at hname
      exact absurd hname.symm (by simp)
    · cases as with
      | nil => rfl
      | cons a as =>
        rw [hname, List.cons_append] at hext
        -- a second dot would stand in the extension
        exact absurd (by rw [← (List.cons.inj hext).2]; simp) hplain

theorem base_eq_nil (patches : List String) (name : Option String) : base patches name = [] ↔
    (name = none ∨ name = some "") ∧ ∃ p, patches = [p] ∧ IsUntitled p := by
  have hpatches : base.ofPatches patches = [] ↔ ∃ p, patches = [p] ∧ IsUntitled p := by
    rcases patches with _ | ⟨p, _ | ⟨q, ps⟩⟩
    · simp [base.ofPatches]
    · simp [base.ofPatches, ofFile_eq_nil]
    · simp [base.ofPatches]
  rcases name with _ | n
  · simp [base, hpatches]
  · by_cases hn : n = ""
    · simp [base, hn, hpatches]
    · simp [base, hn]

/-- Values that are texts are taken as they are. -/
theorem ofValues_texts (patches : List String) (name : Option String) (native : Bool) :
    ofValues (Json.ofTexts patches) (name.elim .null .str) native =
      (make patches name native).mapError .failure := by
  have honly : ∃ qs, onlyPatch (Json.ofTexts patches) = .ok qs ∧
      base.ofPatches qs = base.ofPatches patches := by
    rcases patches with _ | ⟨p, _ | ⟨q, ps⟩⟩
    · exact ⟨_, rfl, rfl⟩
    · exact ⟨_, rfl, rfl⟩
    · exact ⟨_, rfl, rfl⟩
  obtain ⟨qs, hqs, hbase⟩ := honly
  rw [ofValues, hqs]
  rcases name with _ | n
  · show (make qs none native).mapError _ = _
    rw [make, make, base, base, hbase]
  · by_cases hn : n = ""
    · subst hn
      show (make qs none native).mapError _ = _
      rw [make, make, base, base, hbase]
      rfl
    · have hgiven : (Json.str n).isTrue = true := by simp [Json.isTrue, hn]
      rw [Option.elim_some, if_pos hgiven]
      show (make [] (some n) native).mapError _ = _
      rw [make, make, base, base, if_pos hn, if_pos hn]

/-- Either a valid name is made, of which the same is made again, or the only patch is a file without a
title and no name is given. -/
theorem values_valid (patches : List String) (name : Option String) (native : Bool) :
    (∃ n, ofValues (Json.ofTexts patches) (name.elim .null .str) native = .ok n ∧
        IsValid native n ∧
        (∀ qs, ofValues (Json.ofTexts qs) (.str n) native = .ok n) ∧
        ¬ ((name = none ∨ name = some "") ∧ ∃ p, patches = [p] ∧ IsUntitled p)) ∨
      (ofValues (Json.ofTexts patches) (name.elim .null .str) native =
          .error (.failure (.configuration "empty module name")) ∧
        (name = none ∨ name = some "") ∧ ∃ p, patches = [p] ∧ IsUntitled p) := by
  rw [ofValues_texts, ← base_eq_nil]
  by_cases hbase : base patches name = []
  · refine .inr ⟨?_, hbase⟩
    rw [make, hbase]
    rfl
  · obtain ⟨n, hn⟩ : ∃ n, make patches name native = .ok n := by
      rw [make, if_neg (by simpa using hbase)]
      exact ⟨_, rfl⟩
    have hvalid := valid_of_make hn
    refine .inl ⟨n, by rw [hn]; rfl, hvalid, fun qs => ?_, hbase⟩
    have hagain := ofValues_texts qs (some n) native
    rw [make_of_valid hvalid] at hagain
    exact hagain

end Make

end ModuleName

end Hotpatch
