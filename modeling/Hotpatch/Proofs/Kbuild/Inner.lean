import Hotpatch.Proofs.Kbuild.Whole

/-! What lies inside the source tree. Every target is named by the way that leads to it from the
source directory. As long as this way doesn't begin with a step up, the record of the target stands
inside the tree; and what stands beside something inside the tree is inside it, too. -/

namespace Hotpatch

namespace Path

theorem isName_up : IsName ".." := ⟨by decide, by decide, by decide⟩

theorem mem_collapse {rooted : Bool} {ps : List String} {n : String}
    (h : n ∈ collapse rooted ps) : n ∈ ps := by
  have stacked : ∀ (ps ds : List String), n ∈ ps.foldl (push rooted) ds → n ∈ ds ∨ n ∈ ps := by
    intro ps
    induction ps with
    | nil => exact fun ds hn => .inl hn
    | cons p ps ih =>
      intro ds hn
      have hpush : n ∈ push rooted ds p → n ∈ ds ∨ n = p := by
        cases ds <;> grind [push]
      rcases ih _ hn with hn | hn
      · rcases hpush hn with hn | rfl
        · exact .inl hn
        · exact .inr List.mem_cons_self
      · exact .inr (List.mem_cons_of_mem _ hn)
  exact (stacked ps [] (List.mem_reverse.1 h)).resolve_left List.not_mem_nil

theorem push_up (k : Nat) :
    push false (List.replicate k "..") ".." = List.replicate (k + 1) ".." := by
  cases k <;> simp [push, List.replicate_succ]

/-- Steps up pile up below everything else, and are never taken back. -/
theorem foldl_push (ps : List String) (ts : List String) (k : Nat) (hts : ∀ n ∈ ts, n ≠ "..") :
    ∃ ts' k', k ≤ k' ∧ (∀ n ∈ ts', n ≠ "..") ∧
      ps.foldl (push false) (ts ++ List.replicate k "..") = ts' ++ List.replicate k' ".." := by
  induction ps generalizing ts k with
  | nil => exact ⟨ts, k, Nat.le_refl k, hts, rfl⟩
  | cons p ps ih =>
    rw [List.foldl_cons]
    by_cases hp : p = ".."
    · rcases ts with _ | ⟨t, ts⟩
      · have hpush : push false (List.replicate k "..") p = List.replicate (k + 1) ".." :=
          hp ▸ push_up k
        obtain ⟨ts', k', hk, h⟩ := ih [] (k + 1) nofun
        rw [List.nil_append] at h
        rw [List.nil_append, hpush]
        exact ⟨ts', k', by omega, h⟩
      · have hpush : push false (t :: ts ++ List.replicate k "..") p =
            ts ++ List.replicate k ".." := by
          simp [push, hp, hts t List.mem_cons_self]
        rw [hpush]
        exact ih ts k fun n hn => hts n (List.mem_cons_of_mem _ hn)
    · have hpush : push false (ts ++ List.replicate k "..") p =
          p :: ts ++ List.replicate k ".." := by
        cases hs : ts ++ List.replicate k ".." <;> simp [push, hp, hs]
      rw [hpush]
      refine ih (p :: ts) k fun n hn => ?_
      rcases List.mem_cons.1 hn with rfl | hn
      · exact hp
      · exact hts n hn

/-- Resolved in the text, a path is a number of steps up and then leads down. -/
theorem collapse_shape (ps : List String) : ∃ k ts, collapse false ps = List.replicate k ".." ++ ts ∧
    (∀ n ∈ ts, n ≠ "..") ∧ (ps.head? = some ".." → 0 < k) := by
  cases ps with
  | nil => exact ⟨0, [], rfl, nofun, nofun⟩
  | cons p ps =>
    by_cases hp : p = ".."
    · obtain ⟨ts, k, hk, hts, h⟩ := foldl_push ps [] 1 nofun
      refine ⟨k, ts.reverse, ?_, by simpa using hts, fun _ => hk⟩
      have hfirst : push false [] ".." = [".."] := rfl
      rw [collapse, List.foldl_cons, hp, hfirst]
      simpa using congrArg List.reverse h
    · obtain ⟨ts, k, -, hts, h⟩ := foldl_push (p :: ps) [] 0 nofun
      refine ⟨k, ts.reverse, ?_, by simpa using hts, fun hhead => ?_⟩
      · rw [collapse]
        simpa using congrArg List.reverse h
      · exact absurd (Option.some.inj hhead) hp

/-- Steps up and then names are not resolved any further. -/
theorem collapse_outward {k : Nat} {ts : List String} (h : ∀ n ∈ ts, n ≠ "..") :
    collapse false (List.replicate k ".." ++ ts) = List.replicate k ".." ++ ts := by
  have hups : (List.replicate k "..").foldl (push false) [] = List.replicate k ".." := by
    induction k with
    | zero => rfl
    | succ k ih =>
      rw [List.replicate_succ', List.foldl_append, ih, ← List.replicate_succ']
      exact push_up k
  rw [collapse, List.foldl_append, hups, foldl_push_entries false _ h]
  simp

/-- What was resolved stays as it is. -/
theorem collapse_collapse (rooted : Bool) (ps : List String) :
    collapse rooted (collapse rooted ps) = collapse rooted ps := by
  have hpush : ∀ ds c, ds.reverse.foldl (push rooted) [] = ds →
      (push rooted ds c).reverse.foldl (push rooted) [] = push rooted ds c := by
    intro ds c hds
    cases ds with
    | nil =>
      by_cases hc : (decide (c = "..") && rooted) = true
      · simp [push, hc]
      · have hone : push rooted [] c = [c] := by simp [push, hc]
        rw [hone]
        exact hone
    | cons d ds =>
      by_cases hc : (decide (c = "..") && decide (d ≠ "..")) = true
      · have hback : push rooted (d :: ds) c = ds := by rw [push, if_pos hc]
        have hd : d ≠ ".." := by
          rw [Bool.and_eq_true, decide_eq_true_eq, decide_eq_true_eq] at hc
          exact hc.2
        rw [List.reverse_cons, List.foldl_append] at hds
        have hon : ∀ xs, push rooted xs d = d :: xs := fun xs => by cases xs <;> simp [push, hd]
        rw [hback]
        exact (List.cons.inj ((hon _).symm.trans hds)).2
      · have hon : push rooted (d :: ds) c = c :: d :: ds := by rw [push, if_neg hc]
        rw [hon, List.reverse_cons, List.foldl_append, hds]
        exact hon
  have hall : ∀ (ps ds : List String), ds.reverse.foldl (push rooted) [] = ds →
      (ps.foldl (push rooted) ds).reverse.foldl (push rooted) [] = ps.foldl (push rooted) ds := by
    intro ps
    induction ps with
    | nil => exact fun ds hds => hds
    | cons p ps ih => exact fun ds hds => ih _ (hpush ds p hds)
  rw [collapse, collapse, hall ps [] rfl]

theorem inner_inj {as bs : List String} (ha : ∀ n ∈ as, IsName n) (hb : ∀ n ∈ bs, IsName n)
    (h : text ⟨0, as⟩ = text ⟨0, bs⟩) : as = bs := by
  have := ofText_inner ha
  rw [h, ofText_inner hb] at this
  exact (congrArg parts this).symm

end Path

theorem commonLength_le (as bs : List String) : commonLength as bs ≤ bs.length := by
  induction as generalizing bs with
  | nil => exact Nat.zero_le _
  | cons a as ih =>
    cases bs with
    | nil => exact Nat.zero_le _
    | cons b bs =>
      rw [commonLength]
      split
      · exact Nat.succ_le_succ (ih bs)
      · exact Nat.zero_le _

theorem prefix_of_commonLength {as bs : List String} (h : commonLength as bs = bs.length) :
    bs <+: as := by
  induction as generalizing bs with
  | nil =>
    obtain rfl : bs = [] := List.eq_nil_of_length_eq_zero h.symm
    exact List.prefix_refl _
  | cons a as ih =>
    cases bs with
    | nil => exact List.nil_prefix
    | cons b bs =>
      rw [commonLength] at h
      split at h
      · next hab =>
        rw [hab]
        exact (List.prefix_cons_inj b).2 (ih (Nat.succ.inj h))
      · cases h

/-- The way from the source directory to a place goes up as far as they have nothing in common. -/
theorem relative_shape {cwd p : Place} (hc : cwd.IsProper) (hp : p.IsProper) (source : String) :
    ∃ k ns, relative cwd.text p.text source = Path.text ⟨0, List.replicate k ".." ++ ns⟩ ∧
      Place.IsProper ns ∧ (k = 0 → Place.of cwd source <+: p) := by
  obtain ⟨i, -, hs⟩ := Place.ofText_full hc p.text
  obtain ⟨j, -, ht⟩ := Place.ofText_full hc source
  rw [Place.of_text hp] at hs
  have hle := commonLength_le p (Place.of cwd source)
  refine ⟨(Place.of cwd source).length - commonLength p (Place.of cwd source),
    p.drop (commonLength p (Place.of cwd source)), ?_, fun n hn => hp n (List.mem_of_mem_drop hn),
    fun h => prefix_of_commonLength (by omega)⟩
  rw [relative, hs, ht]

theorem normalize_normalize (s : String) : normalize (normalize s) = normalize s := by
  have hproper : (⟨(Path.ofText s).slashes, Path.collapse ((Path.ofText s).slashes ≠ 0)
      (Path.ofText s).parts⟩ : Path).IsProper :=
    ⟨(Path.ofText_proper s).slashes, fun n hn => (Path.ofText_proper s).parts n (Path.mem_collapse hn)⟩
  rw [normalize, normalize, Path.ofText_text hproper]
  dsimp only
  rw [Path.collapse_collapse]

/-- A path that leads down from the source directory. -/
def IsInner (s : String) : Prop := ∃ ns : Place, ns.IsProper ∧ ns ≠ [] ∧ s = Path.text ⟨0, ns⟩

instance (s : String) : Decidable (IsInner s) :=
  decidable_of_iff ((Path.ofText s).parts ≠ [] ∧ Place.IsProper (Path.ofText s).parts ∧
      s = Path.text ⟨0, (Path.ofText s).parts⟩)
    ⟨fun ⟨hne, hproper, hs⟩ => ⟨_, hproper, hne, hs⟩, by
      rintro ⟨ns, hns, hne, rfl⟩
      rw [Path.ofText_inner hns.names]
      exact ⟨hne, hns, rfl⟩⟩

theorem IsInner.normal {s : String} (h : IsInner s) : normalize s = s := by
  obtain ⟨ns, hns, -, rfl⟩ := h
  exact normalize_inner hns

theorem names_outward {k : Nat} {ts : Place} (h : ts.IsProper) :
    ∀ n ∈ List.replicate k ".." ++ ts, Path.IsName n := by
  intro n hn
  rcases List.mem_append.1 hn with hn | hn
  · rw [List.eq_of_mem_replicate hn]
    exact Path.isName_up
  · exact h.names n hn

theorem normalize_outward {k : Nat} {ts : Place} (h : ts.IsProper) :
    normalize (Path.text ⟨0, List.replicate k ".." ++ ts⟩) =
      Path.text ⟨0, List.replicate k ".." ++ ts⟩ := by
  rw [normalize, Path.ofText_inner (names_outward h)]
  dsimp only
  rw [show decide (0 ≠ 0) = false from rfl, Path.collapse_outward fun n hn => (h n hn).stays]

theorem inner_of_downward {k : Nat} {ts : Place} (hts : ts.IsProper)
    (h : IsInner (Path.text ⟨0, List.replicate k ".." ++ ts⟩)) : k = 0 := by
  obtain ⟨ns, hns, -, heq⟩ := h
  have hlist := Path.inner_inj (names_outward hts) hns.names heq
  cases k with
  | zero => rfl
  | succ k =>
    have hup : ".." ∈ ns := by
      rw [← hlist]
      simp
    exact absurd rfl (hns ".." hup).stays

namespace Kbuild

variable {d : Disk} {cwd p : Place} {source name target : String}

/-- A target lies so many steps up from the source directory, and then down. -/
theorem target_shape (hc : cwd.IsProper) (hp : Place.IsProper (p ++ [name]))
    (ht : target? cwd (Place.text (p ++ [name])) source = some target)
    (hpart : isPart target = true) :
    ∃ k ts, Place.IsProper ts ∧ target = Path.text ⟨0, List.replicate k ".." ++ ts⟩ ∧
      (k = 0 → Place.of cwd source <+: p) := by
  have hplace : p.IsProper := fun n hn => hp n (List.mem_append_left _ hn)
  obtain ⟨k, ns, hrel, hns, hk⟩ := relative_shape hc hplace source
  have hname : '/' ∉ (fileName (Place.text (p ++ [name]))).toList := by
    rw [fileName_text hp]
    exact (hp name (by simp)).whole
  obtain ⟨title, hwhole, ht⟩ := title_of_target hname ht
  rw [parent_text hp, hrel] at ht
  have hnames := names_outward hns (k := k)
  split at ht
  · next hdot =>
    have hnil := (Path.inner_eq_dot hnames).1 hdot
    have hk0 : k = 0 := by simpa using (List.append_eq_nil_iff.1 hnil).1
    rw [← ht] at hwhole
    obtain ⟨h₁, h₂, h₃⟩ := isPart_filled hpart
    have hproper : Place.IsProper [target] := by
      simpa [Place.IsProper] using (⟨⟨h₁, h₂, hwhole⟩, h₃⟩ : IsEntry target)
    refine ⟨0, [target], hproper, ?_, fun _ => hk hk0⟩
    rw [List.replicate_zero, List.nil_append, Path.inner_eq hproper.names (by simp),
      String.intercalate_singleton]
  · next hdot =>
    have hglue := ofText_glue (a := Path.text ⟨0, List.replicate k ".." ++ ns⟩)
      (isAbsolute_of_whole hwhole)
    rw [Path.ofText_inner hnames] at hglue
    obtain ⟨k', ts, hshape, hstays, hup⟩ := Path.collapse_shape
      (List.replicate k ".." ++ ns ++ (Path.ofText title).parts)
    have hts : Place.IsProper ts := by
      intro n hn
      have hmem : n ∈ List.replicate k ".." ++ ns ++ (Path.ofText title).parts :=
        Path.mem_collapse (hshape ▸ List.mem_append_right _ hn : n ∈ Path.collapse false _)
      refine ⟨?_, hstays n hn⟩
      rcases List.mem_append.1 hmem with hmem | hmem
      · exact hnames n hmem
      · exact (Path.ofText_proper title).parts n hmem
    refine ⟨k', ts, hts, ?_, fun h0 => hk ?_⟩
    · rw [ht, normalize, hglue]
      dsimp only
      rw [← hshape]
      rfl
    · cases k with
      | zero => rfl
      | succ k => exact absurd (hup rfl) (by omega)

/-- What stands beside something inside the tree is inside it. -/
theorem inner_of_dirname {x : String} {k : Nat} {ts : Place} (hx : IsInner x)
    (hts : ts.IsProper) (ht : target = Path.text ⟨0, List.replicate k ".." ++ ts⟩)
    (hpart : isPart target = true) (hdir : dirname target = dirname x) : IsInner target := by
  obtain ⟨ns, hns, -, rfl⟩ := hx
  have hnames := names_outward hts (k := k)
  have hparts : (List.replicate k ".." ++ ts).dropLast = ns.dropLast := by
    rw [ht, dirname_inner hnames, dirname_inner hns.names] at hdir
    have hleft := parts_ofText_intercalate
      (fun n hn => hnames n (List.dropLast_subset _ hn) : ∀ n ∈ (List.replicate k ".." ++ ts).dropLast, _)
    rw [hdir, parts_ofText_intercalate fun n hn => hns.names n (List.dropLast_subset _ hn)] at hleft
    exact hleft.symm
  cases k with
  | zero =>
    refine ⟨ts, hts, ?_, by simpa using ht⟩
    rintro rfl
    rw [ht] at hpart
    exact absurd hpart (by decide)
  | succ k =>
    exfalso
    rcases hrest : List.replicate k ".." ++ ts with _ | ⟨m, ms⟩
    · rw [List.replicate_succ, List.cons_append, hrest] at ht
      rw [ht] at hpart
      exact absurd hpart (by decide)
    · rw [List.replicate_succ, List.cons_append, hrest, List.dropLast_cons_cons] at hparts
      have hup : ".." ∈ ns := List.dropLast_subset ns (hparts ▸ List.mem_cons_self)
      exact (hns ".." hup).stays rfl

end Kbuild

end Hotpatch
