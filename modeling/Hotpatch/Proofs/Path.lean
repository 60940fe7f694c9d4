import Mathlib.Data.List.Basic
import Hotpatch.Path

/-! Paths as texts and taken apart. A path is written so that it reads back as it was; paths put
together have the components of both. -/

namespace Hotpatch

namespace Text

variable {α : Type}

theorem onFirst_ne_nil (c : α) (ls : List (List α)) : onFirst c ls ≠ [] := by
  cases ls <;> simp [onFirst]

theorem onFirst_append (c : α) {as : List (List α)} (bs : List (List α)) (ha : as ≠ []) :
    onFirst c (as ++ bs) = onFirst c as ++ bs := by
  cases as with
  | nil => exact absurd rfl ha
  | cons a as => rfl

variable [DecidableEq α] {sep : α}

theorem pieces_ne_nil (sep : α) (cs : List α) : pieces sep cs ≠ [] := by
  cases cs with
  | nil => simp [pieces]
  | cons c cs =>
    rw [pieces]
    split
    · simp
    · exact onFirst_ne_nil _ _

theorem pieces_append (sep : α) (as bs : List α) :
    pieces sep (as ++ sep :: bs) = pieces sep as ++ pieces sep bs := by
  induction as with
  | nil => simp [pieces]
  | cons a as ih =>
    rw [List.cons_append, pieces, pieces, ih]
    split
    · rfl
    · exact onFirst_append a _ (pieces_ne_nil _ _)

theorem pieces_of_not_mem {cs : List α} (h : sep ∉ cs) : pieces sep cs = [cs] := by
  induction cs with
  | nil => rfl
  | cons c cs ih =>
    rw [List.mem_cons, not_or] at h
    rw [pieces, if_neg fun hc => h.1 hc.symm, ih h.2]
    rfl

theorem not_mem_of_mem_pieces {cs p : List α} (hp : p ∈ pieces sep cs) : sep ∉ p := by
  induction cs generalizing p with
  | nil =>
    rw [pieces, List.mem_singleton] at hp
    simp [hp]
  | cons c cs ih =>
    rw [pieces] at hp
    split at hp
    · rcases List.mem_cons.1 hp with rfl | hp
      · simp
      · exact ih hp
    · next hc =>
      rcases hq : pieces sep cs with _ | ⟨q, qs⟩
      · exact absurd hq (pieces_ne_nil _ _)
      · rw [hq, onFirst] at hp
        rcases List.mem_cons.1 hp with rfl | hp
        · have := ih (hq ▸ List.mem_cons_self)
          simp [this, Ne.symm hc]
        · exact ih (hq ▸ List.mem_cons_of_mem _ hp)

end Text

attribute [ext] Path

namespace Path

/-- A name that can stand in a path between slashes and says something. -/
structure IsName (n : String) : Prop where
  filled : n ≠ ""
  moves : n ≠ "."
  whole : '/' ∉ n.toList

/-- What a text can be taken apart to. -/
structure IsProper (p : Path) : Prop where
  slashes : p.slashes ≤ 2
  parts : ∀ n ∈ p.parts, IsName n

def namesOf (cs : List Char) : List String :=
  ((Text.pieces '/' cs).map String.ofList).filter fun p => p ≠ "" && p ≠ "."

theorem parts_ofText (s : String) : (ofText s).parts = namesOf s.toList := rfl

theorem namesOf_append (as bs : List Char) : namesOf (as ++ '/' :: bs) = namesOf as ++ namesOf bs := by
  simp [namesOf, Text.pieces_append]

theorem isName_of_mem {cs : List Char} {n : String} (hn : n ∈ namesOf cs) : IsName n := by
  obtain ⟨hn, hp⟩ := List.mem_filter.1 hn
  obtain ⟨p, hp', rfl⟩ := List.mem_map.1 hn
  simp only [ne_eq, decide_not, Bool.and_eq_true, Bool.not_eq_eq_eq_not, Bool.not_true,
    decide_eq_false_iff_not] at hp
  exact ⟨hp.1, hp.2, by rw [String.toList_ofList]; exact Text.not_mem_of_mem_pieces hp'⟩

theorem namesOf_single {n : String} (hn : IsName n) : namesOf n.toList = [n] := by
  rw [namesOf, Text.pieces_of_not_mem hn.whole]
  simp [hn.filled, hn.moves]

theorem namesOf_nil : namesOf [] = [] := by
  simp [namesOf, Text.pieces]

theorem namesOf_intercalate {ns : List String} (hn : ∀ n ∈ ns, IsName n) :
    namesOf (['/'].intercalate (ns.map String.toList)) = ns := by
  induction ns with
  | nil => exact namesOf_nil
  | cons n ns ih =>
    have ih := ih fun m hm => hn m (List.mem_cons_of_mem _ hm)
    have hfirst := namesOf_single (hn n List.mem_cons_self)
    cases ns with
    | nil => simpa only [List.map_cons, List.map_nil, List.intercalate_singleton] using hfirst
    | cons m ms =>
      rw [List.map_cons, List.map_cons, List.intercalate_cons_cons, ← List.map_cons,
        List.append_assoc, List.singleton_append, namesOf_append, hfirst, ih]
      rfl

/-- How many slashes count, by how many there are. -/
def counted : Nat → Nat
  | 0 => 0
  | 2 => 2
  | _ => 1

theorem leading_eq (cs : List Char) : leading cs = counted (cs.takeWhile (· = '/')).length := by
  match cs with
  | [] => rfl
  | c :: cs =>
    by_cases hc : c = '/'
    · subst hc
      match cs with
      | [] => rfl
      | c :: cs =>
        by_cases hc : c = '/'
        · subst hc
          match cs with
          | [] => rfl
          | c :: cs =>
            by_cases hc : c = '/'
            · subst hc
              simp [leading, counted]
            · simp [leading, counted, hc]
        · simp [leading, counted, hc]
    · simp [leading, counted, hc]

/-- What stands behind a character that is no slash doesn't count. -/
theorem leading_append {as : List Char} (bs : List Char) (ha : ∃ c ∈ as, c ≠ '/') :
    leading (as ++ bs) = leading as := by
  have hw : (as ++ bs).takeWhile (· = '/') = as.takeWhile (· = '/') := by
    induction as with
    | nil => simp at ha
    | cons a as ih =>
      rw [List.cons_append, List.takeWhile_cons, List.takeWhile_cons]
      by_cases h : a = '/'
      · obtain ⟨c, hc, hne⟩ := ha
        rcases List.mem_cons.1 hc with rfl | hc
        · exact absurd h hne
        · rw [ih ⟨c, hc, hne⟩]
      · simp [h]
  rw [leading_eq, leading_eq, hw]

theorem leading_append_of_head {as bs : List Char} (hb : bs.head? ≠ some '/') :
    leading (as ++ bs) = leading as := by
  have hw : (as ++ bs).takeWhile (· = '/') = as.takeWhile (· = '/') := by
    induction as with
    | nil => cases bs <;> simp_all
    | cons a as ih => rw [List.cons_append, List.takeWhile_cons, List.takeWhile_cons, ih]
  rw [leading_eq, leading_eq, hw]

theorem leading_le (cs : List Char) : leading cs ≤ 2 := by
  rw [leading_eq]
  unfold counted
  split <;> omega

theorem ofText_proper (s : String) : (ofText s).IsProper :=
  ⟨leading_le _, fun _ hn => isName_of_mem hn⟩

theorem toList_pushn (s : String) (c : Char) (n : Nat) :
    (s.pushn c n).toList = s.toList ++ List.replicate n c := by
  rw [String.pushn_eq_repeat_push]
  induction n with
  | zero => simp [Nat.repeat]
  | succ n ih => rw [Nat.repeat, String.toList_push, ih, List.append_assoc, List.replicate_succ']

/-- The characters of a path that is not the bare dot. -/
def chars (p : Path) : List Char :=
  List.replicate p.slashes '/' ++ ['/'].intercalate (p.parts.map String.toList)

theorem toList_text (p : Path) : p.text.toList = if p.chars = [] then ['.'] else p.chars := by
  have ht : ("".pushn '/' p.slashes ++ "/".intercalate p.parts).toList = p.chars := by
    rw [String.toList_append, toList_pushn, String.toList_intercalate]
    rfl
  rw [text]
  by_cases hc : p.chars = []
  · rw [if_pos (String.toList_eq_nil_iff.1 (ht.trans hc)), if_pos hc]
    rfl
  · rw [if_neg fun h => hc (ht ▸ String.toList_eq_nil_iff.2 h), if_neg hc, ht]

theorem text_ne_empty (p : Path) : p.text ≠ "" := by
  rw [text]
  split
  · decide
  · assumption

/-- Paths that go on from the same components begin with the same characters. -/
theorem toList_text_append (k : Nat) (ps : List String) : ∃ base : List Char,
    ∀ ns : List String, ns ≠ [] → (∀ n ∈ ns, IsName n) →
      (Path.text ⟨k, ps ++ ns⟩).toList = base ++ ['/'].intercalate (ns.map String.toList) := by
  have joined : ∀ ps ns : List String, ns ≠ [] →
      ['/'].intercalate ((ps ++ ns).map String.toList) =
        ps.flatMap (fun p => p.toList ++ ['/']) ++ ['/'].intercalate (ns.map String.toList) := by
    intro ps ns hne
    induction ps with
    | nil => rfl
    | cons p ps ih =>
      have hrest : (ps ++ ns).map String.toList ≠ [] := by simp [hne]
      obtain ⟨q, qs, hq⟩ := List.exists_cons_of_ne_nil hrest
      rw [List.cons_append, List.map_cons, hq, List.intercalate_cons_cons, ← hq, ih]
      simp
  refine ⟨List.replicate k '/' ++ ps.flatMap fun p => p.toList ++ ['/'], fun ns hne hn => ?_⟩
  have hchars : chars ⟨k, ps ++ ns⟩ = List.replicate k '/' ++ ps.flatMap (fun p => p.toList ++ ['/']) ++
      ['/'].intercalate (ns.map String.toList) := by
    rw [chars, joined ps ns hne, List.append_assoc]
  rw [toList_text, hchars, if_neg]
  intro hnil
  obtain ⟨n, ns, rfl⟩ := List.exists_cons_of_ne_nil hne
  have hlast : ['/'].intercalate ((n :: ns).map String.toList) = [] :=
    (List.append_eq_nil_iff.1 hnil).2
  have hfilled := (hn n List.mem_cons_self).filled
  cases ns with
  | nil => exact hfilled (String.toList_eq_nil_iff.1 (by simpa using hlast))
  | cons m ms => simp [List.intercalate_cons_cons] at hlast

theorem namesOf_replicate (n : Nat) (cs : List Char) :
    namesOf (List.replicate n '/' ++ cs) = namesOf cs := by
  induction n with
  | zero => rfl
  | succ n ih =>
    rw [List.replicate_succ, List.cons_append, ← List.nil_append ('/' :: _), namesOf_append,
      namesOf_nil, ih]
    rfl

theorem head?_intercalate {ns : List String} (hn : ∀ n ∈ ns, IsName n) :
    (['/'].intercalate (ns.map String.toList)).head? ≠ some '/' := by
  cases ns with
  | nil => simp
  | cons n ns =>
    have hfirst := hn n List.mem_cons_self
    rcases hc : n.toList with _ | ⟨c, cs⟩
    · exact absurd (String.toList_eq_nil_iff.1 hc) hfirst.filled
    · have hne : c ≠ '/' := by
        rintro rfl
        exact hfirst.whole (hc ▸ List.mem_cons_self)
      cases ns with
      | nil => simpa [hc] using hne
      | cons m ms => simpa [hc, List.intercalate_cons_cons] using hne

/-- A path reads back as it was. -/
theorem ofText_text {p : Path} (hp : p.IsProper) : ofText p.text = p := by
  obtain ⟨k, ns⟩ := p
  have hk : k ≤ 2 := hp.slashes
  have hns : ∀ n ∈ ns, IsName n := hp.parts
  have hnames : namesOf (Path.text ⟨k, ns⟩).toList = ns := by
    rw [toList_text]
    split
    · next hc =>
      have hi : ['/'].intercalate (ns.map String.toList) = [] := (List.append_eq_nil_iff.1 hc).2
      rw [← namesOf_intercalate hns, hi, namesOf_nil]
      rfl
    · rw [chars, namesOf_replicate, namesOf_intercalate hns]
  have hlead : leading (Path.text ⟨k, ns⟩).toList = k := by
    rw [toList_text]
    split
    · next hc =>
      have hr : List.replicate k '/' = [] := (List.append_eq_nil_iff.1 hc).1
      rw [(List.replicate_eq_nil_iff _).1 hr]
      rfl
    · rw [chars, leading_append_of_head (head?_intercalate hns), leading_eq]
      obtain rfl | rfl | rfl : k = 0 ∨ k = 1 ∨ k = 2 := by omega
      · rfl
      · rfl
      · rfl
  rw [ofText, hlead]
  exact congrArg (Path.mk k) hnames

end Path

theorem ofText_clean (s : String) : Path.ofText (clean s) = Path.ofText s :=
  Path.ofText_text (Path.ofText_proper s)

theorem clean_clean (s : String) : clean (clean s) = clean s := by
  rw [clean, ofText_clean]
  rfl

theorem slash_toList : "/".toList = ['/'] := rfl

theorem isAbsolute_iff (s : String) : isAbsolute s = true ↔ s.toList.head? = some '/' := by
  rw [isAbsolute, Text.starts, slash_toList]
  cases s.toList with
  | nil => simp
  | cons c cs =>
    simp only [List.isPrefixOf, Bool.and_true, beq_iff_eq, List.head?_cons, Option.some.injEq]
    exact eq_comm

theorem ends_slash_iff (s : String) : Text.ends "/" s = true ↔ ∃ cs, s.toList = cs ++ ['/'] := by
  rw [Text.ends, slash_toList, List.isSuffixOf_iff_suffix]
  exact ⟨fun ⟨cs, h⟩ => ⟨cs, h.symm⟩, fun ⟨cs, h⟩ => ⟨cs, h.symm⟩⟩

theorem ends_of_last {s suf : String} {cs : List Char} {c e : Char} (hs : s.toList = cs ++ [c])
    (hne : e ≠ c) (ds : List Char) (hsuf : suf.toList = ds ++ [e]) : Text.ends suf s = false := by
  rw [← Bool.not_eq_true, Text.ends, List.isSuffixOf_iff_suffix, hs, hsuf]
  rintro ⟨as, has⟩
  rw [← List.append_assoc] at has
  exact hne (by simpa using (List.append_inj_right' has rfl))

theorem slashes_eq_zero {s : String} (hs : isAbsolute s = false) : (Path.ofText s).slashes = 0 := by
  have hh : s.toList.head? ≠ some '/' := fun h => by
    rw [(isAbsolute_iff s).2 h] at hs
    cases hs
  show Path.leading s.toList = 0
  rw [← List.nil_append s.toList, Path.leading_append_of_head hh]
  rfl

theorem slashes_ne_zero {s : String} (hs : isAbsolute s = true) : (Path.ofText s).slashes ≠ 0 := by
  have hh := (isAbsolute_iff s).1 hs
  obtain ⟨cs, hcs⟩ := List.head?_eq_some_iff.1 hh
  show Path.leading s.toList ≠ 0
  rw [hcs, Path.leading_eq]
  simp only [List.takeWhile_cons, decide_true, if_true, List.length_cons]
  unfold Path.counted
  split <;> omega

/-- Paths put together: the second one is to be relative. -/
theorem ofText_glue {a b : String} (hb : isAbsolute b = false) : Path.ofText (glue a b) =
    ⟨(Path.ofText a).slashes, (Path.ofText a).parts ++ (Path.ofText b).parts⟩ := by
  have hh : b.toList.head? ≠ some '/' := fun h => by
    rw [(isAbsolute_iff b).2 h] at hb
    cases hb
  rw [glue, if_neg (by simp [hb])]
  by_cases he : Text.ends "/" a = true
  · obtain ⟨cs, hcs⟩ := (ends_slash_iff a).1 he
    rw [if_pos (by simp [he])]
    refine Path.ext ?_ ?_
    · show Path.leading (a ++ b).toList = Path.leading a.toList
      rw [String.toList_append, Path.leading_append_of_head hh]
    · show Path.namesOf (a ++ b).toList = Path.namesOf a.toList ++ Path.namesOf b.toList
      rw [String.toList_append, hcs, List.append_assoc, List.singleton_append, Path.namesOf_append,
        Path.namesOf_append, Path.namesOf_nil, List.append_nil]
  · by_cases ha : a = ""
    · subst ha
      rw [if_pos (by simp), String.empty_append]
      refine Path.ext ?_ ?_
      · exact slashes_eq_zero hb
      · show _ = Path.namesOf [] ++ _
        rw [Path.namesOf_nil]
        rfl
    · rw [if_neg (by simp [he, ha])]
      have hglue : (a ++ "/" ++ b).toList = a.toList ++ '/' :: b.toList := by
        rw [String.toList_append, String.toList_append, slash_toList, List.append_assoc]
        rfl
      refine Path.ext ?_ ?_
      · show Path.leading (a ++ "/" ++ b).toList = Path.leading a.toList
        rw [hglue]
        refine Path.leading_append _ ?_
        have hne : a.toList ≠ [] := fun h => ha (String.toList_eq_nil_iff.1 h)
        refine ⟨a.toList.getLast hne, List.getLast_mem hne, fun hl => he ?_⟩
        rw [ends_slash_iff]
        exact ⟨_, by rw [← hl, List.dropLast_append_getLast]⟩
      · show Path.namesOf (a ++ "/" ++ b).toList = Path.namesOf a.toList ++ Path.namesOf b.toList
        rw [hglue, Path.namesOf_append]

theorem text_under (a b : String) : (Path.ofText (under a b)).text = under a b := by
  rw [under, ofText_clean]
  rfl

theorem ofText_under {a b : String} (hb : isAbsolute b = false) : Path.ofText (under a b) =
    ⟨(Path.ofText a).slashes, (Path.ofText a).parts ++ (Path.ofText b).parts⟩ := by
  rw [under, ofText_clean, ofText_glue hb]

/-- The components of a name, and of names one below the other. -/
theorem parts_ofText_name {n : String} (hn : Path.IsName n) : (Path.ofText n).parts = [n] :=
  Path.namesOf_single hn

theorem parts_ofText_intercalate {ns : List String} (hn : ∀ n ∈ ns, Path.IsName n) :
    (Path.ofText ("/".intercalate ns)).parts = ns := by
  rw [Path.parts_ofText, String.toList_intercalate, slash_toList, Path.namesOf_intercalate hn]

theorem isAbsolute_intercalate {ns : List String} (hn : ∀ n ∈ ns, Path.IsName n) :
    isAbsolute ("/".intercalate ns) = false := by
  rw [← Bool.not_eq_true, isAbsolute_iff, String.toList_intercalate, slash_toList]
  exact Path.head?_intercalate hn

theorem isAbsolute_of_whole {n : String} (hn : '/' ∉ n.toList) : isAbsolute n = false := by
  rw [← Bool.not_eq_true, isAbsolute_iff]
  intro h
  obtain ⟨cs, hcs⟩ := List.head?_eq_some_iff.1 h
  exact hn (by rw [hcs]; exact List.mem_cons_self)

theorem isAbsolute_name {n : String} (hn : Path.IsName n) : isAbsolute n = false :=
  isAbsolute_of_whole hn.whole

theorem Text.cut?_some {c : Char} {cs as bs : List Char} (h : Text.cut? c cs = some (as, bs)) :
    cs = as ++ c :: bs ∧ c ∉ as := by
  induction cs generalizing as with
  | nil => cases h
  | cons d ds ih =>
    rw [Text.cut?] at h
    split at h
    · next hd =>
      cases h
      subst hd
      simp
    · next hd =>
      obtain ⟨⟨as', bs'⟩, hcut, heq⟩ := Option.map_eq_some_iff.1 h
      cases heq
      obtain ⟨rfl, hmem⟩ := ih hcut
      simp [hmem, Ne.symm hd]

theorem Text.cut?_none {c : Char} {cs : List Char} (h : Text.cut? c cs = none) : c ∉ cs := by
  induction cs with
  | nil => simp
  | cons d ds ih =>
    rw [Text.cut?] at h
    split at h
    · cases h
    · next hd =>
      simp [ih (Option.map_eq_none_iff.1 h), Ne.symm hd]

/-- A text without slashes is one component at most. -/
theorem parts_of_whole {n : String} (hn : '/' ∉ n.toList) :
    (Path.ofText n).parts = [] ∨ (Path.ofText n).parts = [n] := by
  rw [Path.parts_ofText, Path.namesOf, Text.pieces_of_not_mem hn]
  simp only [List.map_cons, List.map_nil, String.ofList_toList]
  by_cases h : n ≠ "" ∧ n ≠ "."
  · exact .inr (by simp [h.1, h.2])
  · refine .inl ?_
    rw [List.filter_cons_of_neg (by simpa using h)]
    rfl

/-- The directory of something put into `a` is `a`. -/
theorem parent_under {a b : String} (hb : Path.IsName b) : parent (under a b) = clean a := by
  rw [parent, ofText_under (isAbsolute_name hb), parts_ofText_name hb]
  dsimp only
  rw [List.dropLast_concat]
  rfl

theorem fileName_under {a b : String} (hb : Path.IsName b) : fileName (under a b) = b := by
  rw [fileName, ofText_under (isAbsolute_name hb), parts_ofText_name hb]
  simp

end Hotpatch
