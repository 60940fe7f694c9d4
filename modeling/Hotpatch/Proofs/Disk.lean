import Hotpatch.Disk.Access
import Hotpatch.Proofs.Except
import Hotpatch.Proofs.Path

/-! Where paths lead, and what each operation on a file tree does to it. A path that is followed
leads to one place, whatever the tree is; an operation that is not refused changes the tree at this
place only. -/

namespace Hotpatch

/-- A name that something in a directory can have. -/
structure IsEntry (n : String) : Prop extends Path.IsName n where
  stays : n ≠ ".."

instance (n : String) : Decidable (IsEntry n) :=
  decidable_of_iff (n ≠ "" ∧ n ≠ "." ∧ '/' ∉ n.toList ∧ n ≠ "..")
    ⟨fun h => ⟨⟨h.1, h.2.1, h.2.2.1⟩, h.2.2.2⟩, fun h => ⟨h.filled, h.moves, h.whole, h.stays⟩⟩

namespace Place

def IsProper (p : Place) : Prop := ∀ n ∈ p, IsEntry n

theorem IsProper.names {p : Place} (h : p.IsProper) : ∀ n ∈ p, Path.IsName n :=
  fun n hn => (h n hn).toIsName

instance (p : Place) : Decidable p.IsProper := inferInstanceAs (Decidable (∀ n ∈ p, IsEntry n))

def next (here : Place) (n : String) : Place := if n = ".." then here.dropLast else here ++ [n]

/-- Where names lead from a place, as far as they can be followed. -/
def along (here : Place) (ns : List String) : Place := ns.foldl next here

/-- Where a path leads from a working directory, as far as it can be followed. -/
def of (cwd : Place) (s : String) : Place :=
  along (if (Path.ofText s).slashes = 0 then cwd else []) (Path.ofText s).parts

/-- Where the first names of a path lead. -/
def upTo (cwd : Place) (s : String) (ns : List String) : Place :=
  along (if (Path.ofText s).slashes = 0 then cwd else []) ns

variable {cwd here p : Place} {ns : List String} {a b : String}

theorem along_append (here : Place) (ns ms : List String) :
    along here (ns ++ ms) = along (along here ns) ms := by
  rw [along, along, along, List.foldl_append]

theorem along_single {n : String} (hn : n ≠ "..") : along here [n] = here ++ [n] := by
  simp [along, next, hn]

theorem along_eq_append (hn : ∀ n ∈ ns, n ≠ "..") : along here ns = here ++ ns := by
  induction ns generalizing here with
  | nil => simp [along]
  | cons n ns ih =>
    have hrest := @ih (here ++ [n]) fun m hm => hn m (List.mem_cons_of_mem _ hm)
    rw [← List.singleton_append, along_append, along_single (hn n List.mem_cons_self), hrest]
    simp

theorem along_proper (hh : here.IsProper) (hn : ∀ n ∈ ns, Path.IsName n) :
    (along here ns).IsProper := by
  induction ns generalizing here with
  | nil => exact hh
  | cons n ns ih =>
    refine @ih (next here n) ?_ fun m hm => hn m (List.mem_cons_of_mem _ hm)
    unfold next
    split
    · exact fun m hm => hh m (List.dropLast_subset here hm)
    · next h =>
      intro m hm
      rcases List.mem_append.1 hm with hm | hm
      · exact hh m hm
      · rw [List.mem_singleton.1 hm]
        exact ⟨hn n List.mem_cons_self, h⟩

theorem of_proper (hc : cwd.IsProper) (s : String) : (of cwd s).IsProper := by
  refine along_proper ?_ (Path.ofText_proper s).parts
  split
  · exact hc
  · simp [IsProper]

theorem of_upTo {s : String} (h : ns <+: (Path.ofText s).parts) :
    of cwd (Path.text ⟨(Path.ofText s).slashes, ns⟩) = upTo cwd s ns := by
  have hs := Path.ofText_proper s
  have hproper : (⟨(Path.ofText s).slashes, ns⟩ : Path).IsProper :=
    ⟨hs.slashes, fun n (hn : n ∈ ns) => hs.parts n (h.subset hn)⟩
  rw [of, Path.ofText_text hproper]
  rfl

theorem of_clean (cwd : Place) (s : String) : of cwd (clean s) = of cwd s := by
  rw [of, of, ofText_clean]

/-- A relative path leads on from where the one before it leads. -/
theorem of_glue (hb : isAbsolute b = false) :
    of cwd (glue a b) = along (of cwd a) (Path.ofText b).parts := by
  rw [of, ofText_glue hb, along_append]
  rfl

theorem of_under (hb : isAbsolute b = false) :
    of cwd (under a b) = along (of cwd a) (Path.ofText b).parts := by
  rw [under, of_clean, of_glue hb]

theorem of_under_entry (hb : IsEntry b) : of cwd (under a b) = of cwd a ++ [b] := by
  rw [of_under (isAbsolute_name hb.toIsName), parts_ofText_name hb.toIsName, along_single hb.stays]

theorem of_under_entries (hn : ∀ n ∈ ns, IsEntry n) :
    of cwd (under a ("/".intercalate ns)) = of cwd a ++ ns := by
  have hnames : ∀ n ∈ ns, Path.IsName n := fun n hm => (hn n hm).toIsName
  rw [of_under (isAbsolute_intercalate hnames), parts_ofText_intercalate hnames,
    along_eq_append fun n hm => (hn n hm).stays]

theorem of_parent (hb : Path.IsName b) : of cwd (parent (under a b)) = of cwd a := by
  rw [parent_under hb, of_clean]

/-- Below the root, resolving `..` in the text is following it. -/
theorem collapse_rooted (ns : List String) : Path.collapse true ns = along [] ns := by
  have stacked : ∀ (ns ds : List String), (∀ n ∈ ds, n ≠ "..") →
      (ns.foldl (Path.push true) ds).reverse = along ds.reverse ns := by
    intro ns
    induction ns with
    | nil => exact fun ds _ => rfl
    | cons c ns ih =>
      intro ds hds
      have hpush : (Path.push true ds c).reverse = next ds.reverse c ∧
          ∀ n ∈ Path.push true ds c, n ≠ ".." := by
        unfold Path.push next
        by_cases hc : c = ".."
        · cases ds with
          | nil => simp [hc]
          | cons d ds =>
            have hd := hds d List.mem_cons_self
            simp only [hc, decide_true, Bool.true_and, hd, ne_eq, not_false_eq_true, if_true,
              List.reverse_cons, List.dropLast_concat, true_and]
            exact fun n hn => hds n (List.mem_cons_of_mem _ hn)
        · cases ds with
          | nil => simp [hc]
          | cons d ds => simpa [hc] using hds
      rw [List.foldl_cons, ih _ hpush.2, hpush.1]
      rfl
  exact stacked ns [] (by simp)

theorem text_eq (p : Place) : p.text = Path.text ⟨1, p⟩ := by
  rw [← String.toList_inj, Path.toList_text, if_neg (by simp [Path.chars]), text,
    String.toList_append, String.toList_intercalate]
  rfl

theorem ofText_text {p : Place} (hp : p.IsProper) : Path.ofText p.text = ⟨1, p⟩ := by
  rw [text_eq]
  exact Path.ofText_text ⟨by simp, hp.names⟩

/-- The path as it is written from the root, with every `..` resolved, leads to the same place. -/
theorem ofText_full (hc : cwd.IsProper) (s : String) :
    ∃ k, k ≠ 0 ∧ Path.ofText (normalize (glue cwd.text s)) = ⟨k, of cwd s⟩ := by
  have hparts : Path.ofText (glue cwd.text s) = ⟨(Path.ofText (glue cwd.text s)).slashes,
      (if (Path.ofText s).slashes = 0 then cwd else []) ++ (Path.ofText s).parts⟩ ∧
        (Path.ofText (glue cwd.text s)).slashes ≠ 0 := by
    cases habs : isAbsolute s with
    | true =>
      have hs := slashes_ne_zero habs
      have hg : glue cwd.text s = s := by rw [glue, if_pos habs]
      rw [hg, if_neg hs]
      exact ⟨rfl, hs⟩
    | false =>
      have hs := slashes_eq_zero habs
      rw [ofText_glue habs, ofText_text hc, if_pos hs]
      exact ⟨rfl, by simp⟩
  obtain ⟨hparts, hk⟩ := hparts
  have hentries : (of cwd s).IsProper := of_proper hc s
  have halong : along [] (Path.ofText (glue cwd.text s)).parts = of cwd s := by
    rw [hparts]
    dsimp only
    rw [along_append, of]
    congr 1
    split
    · exact along_eq_append fun n hn => (hc n hn).stays
    · rfl
  refine ⟨_, hk, ?_⟩
  rw [normalize, decide_eq_true hk, collapse_rooted, halong]
  refine Path.ofText_text ⟨(Path.ofText_proper _).slashes, ?_⟩
  exact fun n hn => (hentries n hn).toIsName

end Place

namespace Disk

variable {d d' : Disk} {cwd p q : Place} {n : Node} {s : String}

def IsProper (d : Disk) : Prop := ∀ q ∈ d.nodes, q.1.IsProper

instance (d : Disk) : Decidable d.IsProper :=
  inferInstanceAs (Decidable (∀ q ∈ d.nodes, q.1.IsProper))

section Lookup

theorem lookup_filter (ns : List (Place × Node)) (f : Place → Bool) (q : Place) :
    (ns.filter (f ·.1)).lookup q = if f q then ns.lookup q else none := by
  induction ns with
  | nil => simp
  | cons x ns ih =>
    obtain ⟨p, n⟩ := x
    by_cases hq : q = p
    · subst hq
      cases hf : f q <;> simp [hf, ih]
    · have hne : (q == p) = false := beq_eq_false_iff_ne.2 hq
      cases hf : f p <;> simp [hf, List.lookup_cons, hne, ih]

theorem node?_nil (d : Disk) : d.node? [] = some .dir := rfl

theorem node_of_lookup (h : d.node? p = some n) (hp : p ≠ []) : (p, n) ∈ d.nodes := by
  rw [node?, if_neg hp] at h
  obtain ⟨as, bs, hnodes, -⟩ := List.lookup_eq_some_iff.1 h
  rw [hnodes]
  exact List.mem_append_right _ List.mem_cons_self

theorem node?_put (d : Disk) (p q : Place) (n : Node) :
    (d.put p n).node? q = if q = [] then some .dir else if q = p then some n else d.node? q := by
  by_cases hq : q = []
  · simp [hq, node?_nil]
  · have hl := lookup_filter d.nodes (fun x => decide (x ≠ p)) q
    by_cases hp : q = p
    · subst hp
      simp [node?, put, hq]
    · have hne : (q == p) = false := beq_eq_false_iff_ne.2 hp
      simp only [node?, put, hq, hp, if_false, List.lookup_cons, hne]
      rw [hl]
      simp [hp]

theorem node?_erase (d : Disk) (p q : Place) :
    (d.erase p).node? q = if q = [] then some .dir else if p <+: q then none else d.node? q := by
  by_cases hq : q = []
  · simp [hq, node?_nil]
  · have hl := lookup_filter d.nodes (fun x => !p.isPrefixOf x) q
    simp only [node?, erase, hq, if_false]
    rw [hl]
    by_cases hp : p <+: q
    · have hpre : p.isPrefixOf q = true := List.isPrefixOf_iff_prefix.2 hp
      rw [hpre, if_pos hp]
      rfl
    · have hpre : p.isPrefixOf q = false := by
        rw [← Bool.not_eq_true, List.isPrefixOf_iff_prefix]
        exact hp
      rw [hpre, if_neg hp]
      rfl

theorem node?_tick (d : Disk) (q : Place) : d.tick.node? q = d.node? q := rfl

theorem file?_eq_some {f : File} : d.file? p = some f ↔ d.node? p = some (.file f) := by
  unfold file?
  split
  · next g hg => simp [hg]
  · next hg =>
    constructor
    · nofun
    · intro h
      exact absurd h (hg f)

theorem file?_put_dir (h : d.node? p = none) (q : Place) : (d.put p .dir).file? q = d.file? q := by
  rw [file?, node?_put]
  by_cases hq : q = []
  · rw [if_pos hq, hq]
    rfl
  · by_cases hp : q = p
    · rw [if_neg hq, if_pos hp, hp, file?, h]
    · rw [if_neg hq, if_neg hp, file?]

theorem file?_put_file {f : File} (h : p ≠ []) (q : Place) :
    (d.put p (.file f)).file? q = if q = p then some f else d.file? q := by
  rw [file?, node?_put]
  by_cases hq : q = []
  · rw [if_pos hq, if_neg (by rw [hq]; exact h.symm), hq]
    rfl
  · by_cases hp : q = p
    · rw [if_neg hq, if_pos hp, if_pos hp]
    · rw [if_neg hq, if_neg hp, if_neg hp]
      rfl

theorem file?_store {c : Bytes} {t : Int} (h : p ≠ []) : ∃ k, ∀ q,
    (d.store p c t).file? q = if q = p then some ⟨c, t, k⟩ else d.file? q :=
  ⟨_, file?_put_file h⟩

theorem node?_store_ne {c : Bytes} {t : Int} (h : q ≠ p) : (d.store p c t).node? q = d.node? q := by
  rw [store, node?_tick, node?_put, if_neg h]
  split
  · next hq => rw [hq, node?_nil]
  · rfl

theorem node?_store {c : Bytes} {t : Int} (h : p ≠ []) :
    ∃ k, (d.store p c t).node? p = some (.file ⟨c, t, k⟩) :=
  ⟨_, by rw [store, node?_tick, node?_put, if_neg h, if_pos rfl]⟩

theorem file?_erase (d : Disk) (p q : Place) :
    (d.erase p).file? q = if p <+: q then none else d.file? q := by
  rw [file?, node?_erase]
  by_cases hq : q = []
  · subst hq
    simp [file?, node?_nil]
  · by_cases hp : p <+: q
    · simp [hq, hp]
    · simp [hq, hp, file?]

theorem mem_names {n : String} (h : n ∈ d.names p) :
    ∃ x, (p ++ [n], x) ∈ d.nodes := by
  rw [names, Text.mem_sorted, List.mem_filterMap] at h
  obtain ⟨⟨q, x⟩, hq, hn⟩ := h
  split at hn
  · next hpre =>
    simp only [Bool.and_eq_true, decide_eq_true_eq, List.isPrefixOf_iff_prefix] at hpre
    obtain ⟨hlen, r, rfl⟩ := hpre
    rw [List.length_append] at hlen
    obtain ⟨m, rfl⟩ := List.length_eq_one_iff.1 (by omega : r.length = 1)
    rw [List.getLast?_concat, Option.some.injEq] at hn
    exact ⟨x, hn ▸ hq⟩
  · cases hn

theorem names_of_mem {name : String} (h : (p ++ [name], n) ∈ d.nodes) : name ∈ d.names p := by
  rw [names, Text.mem_sorted, List.mem_filterMap]
  refine ⟨_, h, ?_⟩
  simp [List.isPrefixOf_iff_prefix]

theorem isDirAt_iff : d.isDirAt p = true ↔ d.node? p = some .dir := by simp [isDirAt]

theorem isDirAt_nil (d : Disk) : d.isDirAt [] = true := by simp [isDirAt, node?_nil]

/-- What is met below a place stands there, and only directories that may be entered lead to it. -/
theorem mem_beneath {enter : String → Bool} {r : Place × Node} :
    r ∈ d.beneath enter p ↔ (p ++ r.1, r.2) ∈ d.nodes ∧ r.1 ≠ [] ∧
      (∀ n ∈ r.1.dropLast, enter n = true) ∧
      ∀ m, m <+: r.1 → m ≠ r.1 → d.isDirAt (p ++ m) = true := by
  have hway : (List.range r.1.length).all (fun i => d.isDirAt (p ++ r.1.take i)) = true ↔
      ∀ m, m <+: r.1 → m ≠ r.1 → d.isDirAt (p ++ m) = true := by
    simp only [List.all_eq_true, List.mem_range]
    constructor
    · intro h m hm hne
      rw [List.prefix_iff_eq_take.1 hm]
      exact h _ (Nat.lt_of_le_of_ne hm.length_le fun heq => hne (hm.eq_of_length heq))
    · refine fun h i hi => h _ (List.take_prefix i r.1) fun heq => ?_
      rw [← heq, List.length_take] at hi
      omega
  rw [← hway, ← List.all_eq_true (p := enter), ← List.length_pos_iff, beneath, List.mem_filterMap]
  constructor
  · rintro ⟨⟨q, x⟩, hq, hr⟩
    split at hr
    · next hpre =>
      dsimp only at hr
      split at hr
      · next hall =>
        cases hr
        simp only [Bool.and_eq_true, decide_eq_true_eq, List.isPrefixOf_iff_prefix] at hpre hall
        obtain ⟨⟨r, rfl⟩, hlen⟩ := hpre
        rw [List.length_append] at hlen
        have hpos : 0 < r.length := by omega
        rw [List.drop_left] at hall ⊢
        exact ⟨hq, hpos, hall⟩
      · cases hr
    · cases hr
  · rintro ⟨hmem, hpos, henter, hdirs⟩
    refine ⟨_, hmem, ?_⟩
    simp [List.isPrefixOf_iff_prefix, henter, hdirs, hpos]

/-- Where no directory stands, a file may be put without a directory being lost. -/
theorem isDirAt_put_file {f : File} (h : d.isDirAt p = false) (q : Place) :
    (d.put p (.file f)).isDirAt q = d.isDirAt q := by
  by_cases hq : q = []
  · subst hq
    simp [isDirAt_nil]
  · by_cases hp : q = p
    · subst hp
      rw [h]
      simp [isDirAt, node?_put, hq]
    · simp [isDirAt, node?_put, hq, hp]

theorem isDirAt_put_dir (h : d.isDirAt q = true) : (d.put p .dir).isDirAt q = true := by
  rw [isDirAt_iff, node?_put]
  rw [isDirAt_iff] at h
  split
  · rfl
  · split
    · rfl
    · exact h

theorem isDirAt_erase (hp : ¬ p <+: q) : (d.erase p).isDirAt q = d.isDirAt q := by
  by_cases hq : q = []
  · subst hq
    simp [isDirAt_nil]
  · simp [isDirAt, node?_erase, hq, hp]

theorem IsProper.put (hd : d.IsProper) (hp : p.IsProper) (n : Node) : (d.put p n).IsProper := by
  intro q hq
  rcases List.mem_cons.1 hq with rfl | hq
  · exact hp
  · exact hd q (List.mem_filter.1 hq).1

theorem IsProper.erase (hd : d.IsProper) (p : Place) : (d.erase p).IsProper :=
  fun q hq => hd q (List.mem_filter.1 hq).1

end Lookup

section Ways

theorem step_ok {name : String} (h : d.step p name = .ok q) :
    d.isDirAt p = true ∧ name.utf8ByteSize ≤ longestName ∧ q = p.next name := by
  rw [step] at h
  split at h
  · next hd =>
    split at h
    · cases h
    · next hn =>
      cases h
      exact ⟨isDirAt_iff.2 hd, Nat.le_of_not_lt hn, rfl⟩
  · cases h
  · cases h

theorem step_dir {name : String} (h : d.isDirAt p = true) (hn : name.utf8ByteSize ≤ longestName) :
    d.step p name = .ok (p.next name) := by
  rw [step, isDirAt_iff.1 h]
  dsimp only
  rw [if_neg (Nat.not_lt.2 hn), Place.next]

theorem foldlM_step_ok {ns : List String} (h : ns.foldlM d.step p = .ok q) : q = p.along ns := by
  induction ns generalizing p with
  | nil =>
    cases h
    rfl
  | cons n ns ih =>
    rw [List.foldlM_cons] at h
    rcases hs : d.step p n with e | p'
    · rw [hs] at h
      cases h
    · rw [hs] at h
      rw [ih h, (step_ok hs).2.2]
      rfl

theorem acceptable_iff (s : String) : acceptable s = .ok () ↔
    s ≠ "" ∧ '\x00' ∉ s.toList ∧ s.utf8ByteSize ≤ longestPath := by
  rw [acceptable]
  by_cases hs : s = ""
  · simp [hs, throw, throwThe, MonadExceptOf.throw, bind, Except.bind]
  · by_cases hz : '\x00' ∈ s.toList
    · simp [hs, hz, throw, throwThe, MonadExceptOf.throw, bind, Except.bind]
    · by_cases hn : longestPath < s.utf8ByteSize
      · simp [hs, hz, hn, throw, throwThe, MonadExceptOf.throw]
      · simp [hs, hz, hn, Nat.le_of_not_lt hn, pure, Except.pure]

/-- What can't be a path is refused for what is wrong with it. -/
theorem acceptable_error {e : Errno} (h : acceptable s = .error e) : e = .notFound ∨
    e = .nullByte ∧ '\x00' ∈ s.toList ∨ e = .nameTooLong ∧ longestPath < s.utf8ByteSize := by
  unfold acceptable at h
  dsimp only at h
  split at h
  · cases h
    exact .inl rfl
  split at h
  · next hz =>
    cases h
    exact .inr (.inl ⟨rfl, List.contains_iff_mem.1 hz⟩)
  split at h
  · next hlong =>
    cases h
    exact .inr (.inr ⟨rfl, hlong⟩)
  · cases h

/-- Names are followed through directories only. -/
theorem foldlM_step_ways {ns : List String} (h : ns.foldlM d.step p = .ok q) :
    ∀ m, m <+: ns → m ≠ ns → d.isDirAt (p.along m) = true := by
  induction ns generalizing p with
  | nil => exact fun m hm hne => absurd (List.prefix_nil.1 hm) hne
  | cons n ns ih =>
    intro m hm hne
    rw [List.foldlM_cons] at h
    rcases hs : d.step p n with e | p'
    · rw [hs] at h
      cases h
    · rw [hs] at h
      obtain ⟨hd, -, rfl⟩ := step_ok hs
      cases m with
      | nil => exact hd
      | cons n' m =>
        obtain ⟨rfl, hm'⟩ := List.cons_prefix_cons.1 hm
        exact ih h m hm' fun heq => hne (heq ▸ rfl)

theorem reach_ok (h : d.reach cwd s = .ok p) : acceptable s = .ok () ∧
    (Path.ofText s).parts.foldlM d.step (if (Path.ofText s).slashes = 0 then cwd else []) = .ok p ∧
      (Text.ends "/." s = true → ∃ q, d.step p "." = .ok q) := by
  obtain ⟨⟨⟩, hacc, h⟩ := exists_of_bind h
  obtain ⟨q, hfold, h⟩ := exists_of_bind h
  dsimp only at h
  split at h
  · obtain ⟨r, hr, h⟩ := exists_of_bind h
    cases h
    exact ⟨hacc, hfold, fun _ => ⟨r, hr⟩⟩
  · next he =>
    cases h
    exact ⟨hacc, hfold, fun h => absurd h he⟩

theorem reach_of (h : d.reach cwd s = .ok p) : p = Place.of cwd s :=
  foldlM_step_ok (reach_ok h).2.1

theorem locate_reach (h : d.locate cwd s = .ok p) : d.reach cwd s = .ok p := by
  obtain ⟨q, hr, h⟩ := exists_of_bind h
  dsimp only at h
  split at h
  · obtain ⟨r, -, h⟩ := exists_of_bind h
    cases h
    exact hr
  · cases h
    exact hr

theorem locate_of (h : d.locate cwd s = .ok p) : p = Place.of cwd s := reach_of (locate_reach h)

theorem find_locate (h : d.find cwd s = .ok (p, n)) :
    d.locate cwd s = .ok p ∧ d.node? p = some n := by
  obtain ⟨q, hl, h⟩ := exists_of_bind h
  split at h
  · next m hm =>
    cases h
    exact ⟨hl, hm⟩
  · cases h

theorem find_ok (h : d.find cwd s = .ok (p, n)) : p = Place.of cwd s ∧ d.node? p = some n :=
  ⟨locate_of (find_locate h).1, (find_locate h).2⟩

/-- On the way to a directory are directories. -/
theorem find_ways (h : d.find cwd s = .ok (p, .dir)) :
    ∀ m, m <+: (Path.ofText s).parts → d.isDirAt (Place.upTo cwd s m) = true := by
  intro m hm
  obtain ⟨hlocate, hnode⟩ := find_locate h
  by_cases heq : m = (Path.ofText s).parts
  · rw [heq, isDirAt_iff, ← hnode, locate_of hlocate]
    rfl
  · exact foldlM_step_ways (reach_ok (locate_reach hlocate)).2.1 m hm heq

theorem isDir_iff : d.isDir cwd s = true ↔ ∃ p, d.find cwd s = .ok (p, .dir) := by
  rw [isDir]
  split
  · next p hp => simp [hp]
  · next hn =>
    constructor
    · nofun
    · rintro ⟨p, hp⟩
      exact absurd hp (hn p)

theorem isFile_iff : d.isFile cwd s = true ↔ ∃ p f, d.find cwd s = .ok (p, .file f) := by
  rw [isFile]
  split
  · next p f hf => simp [hf]
  · next hn =>
    constructor
    · nofun
    · rintro ⟨p, f, hf⟩
      exact absurd hf (hn p f)

theorem open?_ok {f : File} (h : d.open? cwd s = .ok f) :
    d.find cwd s = .ok (Place.of cwd s, .file f) := by
  rw [open?] at h
  split at h
  · next hf =>
    cases h
    rw [← (find_ok hf).1]
    exact hf
  · cases h
  · cases h

theorem read_ok {c : Bytes} (h : d.read cwd s = .ok c) :
    ∃ f, d.find cwd s = .ok (Place.of cwd s, .file f) ∧ f.content = c := by
  rw [read] at h
  rcases ho : d.open? cwd s with e | f
  · rw [ho] at h
    cases h
  · rw [ho] at h
    exact ⟨f, open?_ok ho, Except.ok.inj h⟩

theorem foldlM_step_mono {ns : List String} (h : ns.foldlM d.step p = .ok q)
    (hd : ∀ m, m <+: ns → d.isDirAt (p.along m) = true → d'.isDirAt (p.along m) = true) :
    ns.foldlM d'.step p = .ok q := by
  induction ns generalizing p with
  | nil => exact h
  | cons n ns ih =>
    rw [List.foldlM_cons] at h ⊢
    rcases hs : d.step p n with e | p'
    · rw [hs] at h
      cases h
    · rw [hs] at h
      obtain ⟨hdir, hn, rfl⟩ := step_ok hs
      have hnext : d'.step p n = .ok (p.next n) := step_dir (hd [] List.nil_prefix hdir) hn
      rw [hnext]
      exact ih h fun m hm => hd (n :: m) (List.cons_prefix_cons.2 ⟨rfl, hm⟩)

/-- A path leads where it led as long as the directories on its way stay. -/
theorem locate_mono (h : d.locate cwd s = .ok p) (hd : ∀ m, m <+: (Path.ofText s).parts →
    d.isDirAt (Place.upTo cwd s m) = true → d'.isDirAt (Place.upTo cwd s m) = true) :
    d'.locate cwd s = .ok p := by
  have hp := locate_of h
  have hdot : ∀ {q}, d.step p "." = .ok q → d'.step p "." = .ok q := by
    intro q hq
    obtain ⟨hdir, hlong, rfl⟩ := step_ok hq
    refine step_dir ?_ hlong
    rw [hp] at hdir ⊢
    exact hd _ (List.prefix_refl _) hdir
  obtain ⟨hacc, hfold, hend⟩ := reach_ok (locate_reach h)
  have hreach : d'.reach cwd s = .ok p := by
    rw [reach, hacc]
    simp only [bind, Except.bind, foldlM_step_mono hfold hd]
    split
    · next he =>
      obtain ⟨q, hq⟩ := hend he
      rw [hdot hq]
      rfl
    · rfl
  rw [locate, locate_reach h] at h
  rw [locate, hreach]
  simp only [bind, Except.bind] at h ⊢
  split
  · next he =>
    rw [if_pos he] at h
    rcases hs : d.step p "." with e | q
    · rw [hs] at h
      cases h
    · rw [hdot hs]
      rfl
  · rfl

theorem find_mono (h : d.find cwd s = .ok (p, n)) (hd : ∀ m, m <+: (Path.ofText s).parts →
    d.isDirAt (Place.upTo cwd s m) = true → d'.isDirAt (Place.upTo cwd s m) = true)
    (hn : d'.node? p = some n) : d'.find cwd s = .ok (p, n) := by
  rw [find, locate_mono (find_locate h).1 hd]
  simp only [bind, Except.bind, hn]
  rfl

theorem refused_ok {α : Type} {r : Except Errno α} {a : α} (h : refused s r = .ok a) : r = .ok a := by
  cases r with
  | error => cases h
  | ok b =>
    cases h
    rfl

theorem foldlM_step_error {ns : List String} {e : Errno} (h : ns.foldlM d.step p = .error e) :
    ∃ q, ∃ n ∈ ns, d.step q n = .error e := by
  induction ns generalizing p with
  | nil => cases h
  | cons n ns ih =>
    rw [List.foldlM_cons] at h
    obtain hs | ⟨q, -, h⟩ := error_of_bind h
    · exact ⟨p, n, List.mem_cons_self, hs⟩
    · obtain ⟨q, m, hm, hq⟩ := ih h
      exact ⟨q, m, List.mem_cons_of_mem n hm, hq⟩

/-- What keeps a path from leading anywhere: it can be none at all, or a step on the way is refused, which
is one by a name of the path or the last one into a directory. -/
inductive Bars (d : Disk) (s : String) (e : Errno) : Prop
  | path : acceptable s = .error e → d.Bars s e
  | name {p : Place} {n : String} : n ∈ (Path.ofText s).parts → d.step p n = .error e → d.Bars s e
  | last {p : Place} : d.step p "." = .error e → d.Bars s e

theorem reach_error {e : Errno} (h : d.reach cwd s = .error e) : d.Bars s e := by
  obtain hacc | ⟨⟨⟩, -, h⟩ := error_of_bind h
  · exact .path hacc
  obtain hfold | ⟨q, -, h⟩ := error_of_bind h
  · obtain ⟨q, n, hn, hs⟩ := foldlM_step_error hfold
    exact .name hn hs
  dsimp only at h
  split at h
  · obtain hs | ⟨r, -, h⟩ := error_of_bind h
    · exact .last hs
    · cases h
  · cases h

theorem locate_error {e : Errno} (h : d.locate cwd s = .error e) : d.Bars s e := by
  obtain hr | ⟨q, -, h⟩ := error_of_bind h
  · exact reach_error hr
  dsimp only at h
  split at h
  · obtain hs | ⟨r, -, h⟩ := error_of_bind h
    · exact .last hs
    · cases h
  · cases h

theorem find_error {e : Errno} (h : d.find cwd s = .error e) : d.Bars s e ∨ e = .notFound := by
  obtain hl | ⟨q, -, h⟩ := error_of_bind h
  · exact .inl (locate_error hl)
  split at h
  · cases h
  · cases h
    exact .inr rfl

theorem step_long {name : String} (h : d.step p name = .error .nameTooLong) :
    longestName < name.utf8ByteSize := by
  unfold step at h
  split at h
  · split at h
    · assumption
    · cases h
  · cases h
  · cases h

/-- A path that is too long to be looked up: as a whole, or for one of its names. -/
def Overlong (s : String) : Prop :=
  longestPath < s.utf8ByteSize ∨ ∃ n ∈ (Path.ofText s).parts, longestName < n.utf8ByteSize

theorem overlong_of_find (h : d.find cwd s = .error .nameTooLong) : Overlong s := by
  obtain hbar | he := find_error h
  · cases hbar with
    | path ha =>
      obtain he | ⟨he, -⟩ | ⟨-, hlong⟩ := acceptable_error ha
      · cases he
      · cases he
      · exact .inl hlong
    | name hn hs => exact .inr ⟨_, hn, step_long hs⟩
    | last hs => exact absurd (step_long hs) (by decide)
  · cases he

/-- Looking a path up is refused only for its length. -/
theorem look?_error {e : DiskError} (h : d.look? cwd s = .error e) :
    e = .failed .nameTooLong s ∧ Overlong s := by
  rw [look?] at h
  split at h
  · cases h
  · next hf =>
    cases h
    exact ⟨rfl, overlong_of_find hf⟩
  · cases h

end Ways

section Changes

variable {c : Bytes} {t : Int} {a b : String}

theorem writeAt_ends (h : d.writeAt cwd s c t = .ok d') : Text.ends "/" s = false := by
  rw [← Bool.not_eq_true]
  intro he
  rw [writeAt, if_pos he] at h
  obtain ⟨⟨⟩, -, h⟩ := exists_of_bind h
  obtain ⟨p, -, h⟩ := exists_of_bind h
  cases h

theorem writeAt_ok (h : d.writeAt cwd s c t = .ok d') :
    d.reach cwd s = .ok (Place.of cwd s) ∧ d.isDirAt (Place.of cwd s) = false ∧
      d' = d.store (Place.of cwd s) c t := by
  rw [writeAt, if_neg (Bool.eq_false_iff.1 (writeAt_ends h))] at h
  obtain ⟨p, hr, h⟩ := exists_of_bind h
  have hr := refused_ok hr
  obtain rfl := reach_of hr
  dsimp only at h
  split at h
  · cases h
  · next hd =>
    cases h
    exact ⟨hr, Bool.eq_false_iff.2 hd, rfl⟩

theorem makeDir_ok (h : d.makeDir cwd s = .ok d') :
    d.node? (Place.of cwd s) = none ∧ d' = d.put (Place.of cwd s) .dir := by
  obtain ⟨p, hr, h⟩ := exists_of_bind h
  obtain rfl := locate_of (refused_ok hr)
  split at h
  · cases h
  · next hn =>
    cases h
    exact ⟨hn, rfl⟩

/-- Making directories puts them where nothing is, on the way that the path leads. -/
theorem makeDirs_follows {J : Disk → Prop} (hJ : ∀ d m, m <+: (Path.ofText s).parts → J d →
      d.node? (Place.upTo cwd s m) = none → J (d.put (Place.upTo cwd s m) .dir)) (hd : J d) :
    J (d.makeDirs cwd s).1 := by
  have made : ∀ {d : Disk} {m : List String}, m <+: (Path.ofText s).parts → J d →
      J (d.settle cwd (Path.text ⟨(Path.ofText s).slashes, m⟩)
        (d.makeDir cwd (Path.text ⟨(Path.ofText s).slashes, m⟩))).1 := by
    intro d m hm hd
    rcases hmake : d.makeDir cwd (Path.text ⟨(Path.ofText s).slashes, m⟩) with e | d'
    · unfold settle
      split
      · next h => cases h
      · exact hd
      · exact hd
    · obtain ⟨hnone, rfl⟩ := makeDir_ok hmake
      rw [Place.of_upTo hm] at hnone ⊢
      exact hJ d m hm hd hnone
  have upTo : ∀ (n depth : Nat) (d : Disk), J d → J (d.makePrefix cwd (Path.ofText s) n depth).1 := by
    intro n
    induction n with
    | zero =>
      intro depth d hd
      cases depth with
      | zero => exact hd
      | succ depth => exact made List.nil_prefix hd
    | succ n ih =>
      intro depth d hd
      cases depth with
      | zero => exact hd
      | succ depth =>
        unfold makePrefix
        dsimp only
        split
        · have habove := ih depth d hd
          split
          · next heq =>
            rw [heq] at habove
            exact made (List.take_prefix _ _) habove
          · exact habove
        · exact made (List.take_prefix _ _) hd
  exact upTo _ _ _ hd

theorem makeDirs_keeps {J : Disk → Prop}
    (hJ : ∀ d s, J d → d.node? (Place.of cwd s) = none → J (d.put (Place.of cwd s) .dir))
    (hd : J d) (s : String) : J (d.makeDirs cwd s).1 := by
  refine makeDirs_follows (fun d m hm hd hnone => ?_) hd
  rw [← Place.of_upTo hm] at hnone ⊢
  exact hJ d _ hd hnone

/-- A file is copied to the target itself or, where this is a directory, into it. -/
theorem copy_ok (h : d.copy cwd a b = .ok d') : ∃ b' f,
    (b' = if d.isDir cwd b then glue b (basename a) else b) ∧ d.open? cwd a = .ok f ∧
      d.isDirAt (Place.of cwd b') = false ∧ d' = d.store (Place.of cwd b') f.content f.time := by
  have body : ∀ b' shown, (do
      if b'.toList.contains '\x00' then throw (.failed .nullByte b')
      if d.sameAs cwd a b' then throw (.same (pathQuoted a) shown)
      let f ← d.open? cwd a
      d.writeAt cwd b' f.content f.time : Except DiskError Disk) = .ok d' → ∃ f,
        d.open? cwd a = .ok f ∧ d.isDirAt (Place.of cwd b') = false ∧
          d' = d.store (Place.of cwd b') f.content f.time := by
    intro b' shown h
    dsimp only at h
    split at h
    · cases h
    · split at h
      · cases h
      · obtain ⟨f, ho, h⟩ := exists_of_bind h
        obtain ⟨-, hb, rfl⟩ := writeAt_ok h
        exact ⟨f, ho, hb, rfl⟩
  rw [copy] at h
  by_cases hi : d.isDir cwd b = true
  · rw [if_pos hi] at h
    obtain ⟨f, hf⟩ := body _ _ h
    exact ⟨_, f, by rw [if_pos hi], hf⟩
  · rw [if_neg hi] at h
    obtain ⟨f, hf⟩ := body _ _ h
    exact ⟨_, f, by rw [if_neg hi], hf⟩

theorem append_cases (d : Disk) (p : Place) (serial : Nat) (c : Bytes) :
    d.append p serial c = d ∨
      ∃ f, d.file? p = some f ∧ d.append p serial c = d.store p (f.content ++ c) d.clock := by
  unfold append
  split
  · next f hf =>
    split
    · exact .inr ⟨f, hf, rfl⟩
    · exact .inl rfl
  · exact .inl rfl

theorem isDirAt_store {c : Bytes} {t : Int} (h : d.isDirAt p = false) (q : Place) :
    (d.store p c t).isDirAt q = d.isDirAt q :=
  isDirAt_put_file h q

/-- What was written is found. -/
theorem find_writeAt (h : d.writeAt cwd s c t = .ok d') :
    ∃ f, d'.find cwd s = .ok (Place.of cwd s, .file f) ∧ f.content = c := by
  have hend := writeAt_ends h
  obtain ⟨hreach, hdir, rfl⟩ := writeAt_ok h
  have hne : Place.of cwd s ≠ [] := by
    intro heq
    rw [heq, isDirAt_nil] at hdir
    cases hdir
  have hlocate : d.locate cwd s = .ok (Place.of cwd s) := by
    rw [locate, hreach]
    simp only [bind, Except.bind, hend]
    rfl
  obtain ⟨k, hk⟩ := node?_store (d := d) (c := c) (t := t) hne
  refine ⟨⟨c, t, k⟩, ?_, rfl⟩
  rw [find, locate_mono hlocate fun m _ hm => by rwa [isDirAt_store hdir]]
  simp only [bind, Except.bind, hk]
  rfl

theorem isDirAt_append (d : Disk) (p q : Place) (serial : Nat) (c : Bytes) :
    (d.append p serial c).isDirAt q = d.isDirAt q := by
  rcases append_cases d p serial c with h | ⟨f, hf, h⟩
  · rw [h]
  · rw [h, isDirAt_store]
    rw [isDirAt, file?_eq_some.1 hf]
    rfl

theorem node?_append_ne (d : Disk) (serial : Nat) (c : Bytes) (h : q ≠ p) :
    (d.append p serial c).node? q = d.node? q := by
  rcases append_cases d p serial c with ha | ⟨f, -, ha⟩
  · rw [ha]
  · rw [ha, node?_store_ne h]

/-- What is added to a file leaves all other places as they are. -/
theorem find_append_ne (h : d.find cwd s = .ok (p, n)) (hq : p ≠ q) (serial : Nat) (c : Bytes) :
    (d.append q serial c).find cwd s = .ok (p, n) := by
  refine find_mono h (fun m _ hm => by rwa [isDirAt_append]) ?_
  rw [node?_append_ne d serial c hq]
  exact (find_ok h).2

/-- What is added to a file takes neither a directory nor a file away. -/
theorem find_append (h : d.find cwd s = .ok (p, n)) (q : Place) (serial : Nat) (c : Bytes) :
    ∃ m, (d.append q serial c).find cwd s = .ok (p, m) ∧ (m = .dir ↔ n = .dir) := by
  have hdirs : ∀ r, d.isDirAt r = true → (d.append q serial c).isDirAt r = true := fun r hr =>
    (isDirAt_append d q r serial c).trans hr
  have hnode : ∃ m, (d.append q serial c).node? p = some m ∧ (m = .dir ↔ n = .dir) := by
    rcases append_cases d q serial c with ha | ⟨f, hf, ha⟩
    · exact ⟨n, by rw [ha]; exact (find_ok h).2, Iff.rfl⟩
    · rw [ha]
      by_cases hpq : p = q
      · subst hpq
        have hne : p ≠ [] := by
          rintro rfl
          rw [file?_eq_some, node?_nil] at hf
          cases hf
        obtain ⟨k, hk⟩ := node?_store (d := d) (c := f.content ++ c) (t := d.clock) hne
        have hn : n = .file f := Option.some.inj ((find_ok h).2.symm.trans (file?_eq_some.1 hf))
        exact ⟨_, hk, by simp [hn]⟩
      · exact ⟨n, (node?_store_ne hpq).trans (find_ok h).2, Iff.rfl⟩
  obtain ⟨m, hm, hiff⟩ := hnode
  refine ⟨m, ?_, hiff⟩
  rw [find, locate_mono (find_locate h).1 fun r _ => hdirs _]
  simp only [bind, Except.bind, hm]
  rfl

end Changes

end Disk

end Hotpatch
