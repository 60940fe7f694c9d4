import Hotpatch.Proofs.Kbuild.Ambiguity

/-! Trees in which no object goes into two targets. There is one way up from every object, and whatever
a resolver was asked before, even where it failed, it finds what this way leads to: the binary, the
object where it is lost, or the cycle it runs into. -/

namespace Hotpatch.Kbuild

namespace Tree

/-- What the records of a tree say, records say that can be opened by their paths and are not inside a
`.git` directory, and none of them lists an object that another target's record lists. -/
structure Single (t : Tree) : Prop where
  plain : ∀ a b, t.Links a b → t.Listed a b
  one : ∀ a b c, t.Listed a b → t.Listed a c → b = c

/-- A step up from something that is not a binary yet. -/
def Up (t : Tree) (a b : String) : Prop := isTop a = false ∧ t.Listed a b

/-- What following the parents from an object comes to. Only the first look can break off. -/
inductive Followed (t : Tree) (image : Binary) (object : String) : Except Fault Binary → Prop
  | owner {c} : Chain t.Listed object c → isTop c = true →
      Followed t image object (.ok (binaryAt t.source image c))
  | lost {c} : Chain t.Listed object c → isTop c = false → (∀ p, ¬ t.Listed c p) →
      Followed t image object (.error (.failure (.unresolved object ("invalid ancestor " ++ c))))
  | cycle {c} : Chain t.Listed object c → Relation.TransGen t.Up c c →
      Followed t image object (.error (.failure (.unresolved object ("dependency cycle at " ++ c))))
  | broken e : (t.said (normalize (dirname object))).stop ≠ none →
      Followed t image object (.error (.ofDisk e))

/-- What a look for the parents of an object comes to. -/
inductive Looked (t : Tree) (object : String) : Except Fault (List String) → Prop
  | none : (∀ p, ¬ t.Listed object p) → Looked t object (.ok [])
  | one {p} : t.Listed object p → IsInner p → Looked t object (.ok [p])
  | broken e : (t.said (normalize (dirname object))).stop ≠ none →
      Looked t object (.error (.ofDisk e))

section Ways

variable {t : Tree} {object a b c : String}

theorem Single.unique (h : t.Single) : Relator.RightUnique t.Up :=
  fun _ _ _ hb hc => h.one _ _ _ hb.2 hc.2

/-- From whatever is on a cycle, the only way leads back. -/
theorem Single.back (h : t.Single) (ha : Relation.TransGen t.Up a a) (hb : Chain t.Listed a b) :
    Relation.TransGen t.Up b a := by
  induction hb with
  | refl => exact ha
  | @tail b c _ hstep ih =>
    obtain ⟨x, hx, hrest⟩ := Relation.TransGen.head'_iff.1 ih
    obtain rfl : x = c := h.unique hx hstep
    exact Relation.TransGen.trans_right hrest ha

/-- Two ways from one object that both go no further end at the same. -/
theorem Single.ends (h : t.Single) (hb : Chain t.Listed object b) (hc : Chain t.Listed object c)
    (hbend : ∀ x, ¬ t.Up b x) (hcend : ∀ x, ¬ t.Up c x) : b = c := by
  have stays : ∀ {x y}, (∀ z, ¬ t.Up x z) → Relation.ReflTransGen t.Up x y → x = y := by
    intro x y hend hway
    rcases hway.cases_head with heq | ⟨z, hz, -⟩
    · exact heq
    · exact absurd hz (hend z)
  rcases Relation.ReflTransGen.total_of_right_unique h.unique hb hc with hbc | hcb
  · exact stays hbend hbc
  · exact (stays hcend hcb).symm

/-- A way that ends meets no cycle. -/
theorem Single.acyclic (h : t.Single) (hb : Chain t.Listed object b) (hc : Chain t.Listed object c)
    (hbend : ∀ x, ¬ t.Up b x) : ¬ Relation.TransGen t.Up c c := by
  intro hcycle
  have hback : Relation.TransGen t.Up b c := by
    rcases Relation.ReflTransGen.total_of_right_unique h.unique hb hc with hbc | hcb
    · rcases hbc.cases_head with rfl | ⟨x, hx, -⟩
      · exact hcycle
      · exact absurd hx (hbend x)
    · exact h.back hcycle hcb
  obtain ⟨x, hx, -⟩ := Relation.TransGen.head'_iff.1 hback
  exact hbend x hx

/-- In a source directory that is named by its own path, and that has no `.git` directory in it, every
record can be opened by its path. -/
theorem Links.listed (ht : t.IsProper) (hroot : clean t.source = t.root.text)
    (hdir : t.disk.isDirAt t.root = true)
    (hgit : ∀ q ∈ t.disk.nodes, t.root <+: q.1 → ".git" ∉ q.1.drop t.root.length)
    (h : t.Links a b) : t.Listed a b := by
  obtain ⟨q, hq, ⟨rest, hrest⟩, he⟩ := h
  have hproper : Place.IsProper (t.root ++ rest) := hrest ▸ ht.disk q hq
  rcases List.eq_nil_or_concat rest with rfl | ⟨ns, name, rfl⟩
  · obtain ⟨target, text, -, -, htext, -⟩ := Contribution.edge_of_record he
    obtain ⟨f, hfile⟩ := Disk.readText_find htext
    rw [List.append_nil] at hrest hproper
    rw [← hrest, Place.of_text hproper] at hfile
    rw [Disk.isDirAt_iff, (Disk.find_ok hfile).2] at hdir
    cases hdir
  · rw [List.concat_eq_append] at hrest hproper
    have hns : Place.IsProper (ns ++ [name]) := fun n hn => hproper n (List.mem_append_right _ hn)
    have htop : t.root.IsProper := fun n hn => hproper n (List.mem_append_left _ hn)
    have hpath : under (t.directory ns) name = Place.text q.1 := by
      rw [directory, ← under_concat _ hns.names, ← text_under, ofText_under
        (isAbsolute_inner hns.names), Path.ofText_inner hns.names, hroot, Place.ofText_text htop,
        ← hrest, Place.text_eq]
    have hfar := hgit q hq ⟨_, hrest⟩
    rw [← hrest, List.drop_left] at hfar
    refine ⟨ns, name, fun n hn => hns n (List.mem_append_left _ hn), hns name (by simp),
      fun hm => hfar (List.mem_append_left _ hm), ?_⟩
    rw [hpath]
    exact he

theorem not_up_of_top (h : isTop c = true) (x : String) : ¬ t.Up c x := by
  rintro ⟨hc, -⟩
  rw [h] at hc
  cases hc

end Ways

end Tree

/-- A resolver that holds what stands in a tree, and can read the directory it would look at first. -/
structure Primed (t : Tree) (r : Resolver) : Prop extends Held t r where
  reads : ∀ dir, r.lastBroadDir = some dir → (t.said (normalize dir)).stop = none

namespace Search

variable {t : Tree} {r r' : Resolver} {object dir : String}

theorem lookNear_stops (h : Held t r) (dir : String) :
    Ends t r (lookNear dir) fun v r' => r'.lastBroadDir = r.lastBroadDir ∧
      ∀ e, v = .error e → (t.said (normalize dir)).stop ≠ none := by
  have hstop : ∀ e, (r.near.addDirectory t.disk t.cwd dir).stop = some e →
      (t.said (normalize dir)).stop = some e := by
    intro e he
    rw [Index.addDirectory, Index.insertDir] at he
    split at he
    · cases he
    · simpa only [h.near, Tree.said] using he
  refine .read (.resolver (.next (.notes ⟨rfl, rfl⟩) (.next (.update ⟨rfl, rfl⟩) (.goOn ?_))))
  refine ⟨rfl, fun e he => ?_⟩
  rcases hs : (r.near.addDirectory t.disk t.cwd dir).stop with _ | e'
  · rw [hs] at he
    cases he
  · rw [hstop e' hs]
    exact Option.some_ne_none e'

theorem parentsIn_stops (h : Held t r) (dir object : String) :
    Ends t r (parentsIn dir object) fun v r' => r'.lastBroadDir = r.lastBroadDir ∧
      ∀ e, v = .error e → (t.said (normalize dir)).stop ≠ none :=
  (lookNear_stops h dir).bind (fun _ _ hf => .resolver (.pure ⟨hf.1, nofun⟩))
    fun e _ hf => ⟨hf.1, fun _ _ => hf.2 e rfl⟩

theorem wholeTree_last (t : Tree) (r : Resolver) (object : String) :
    Ends t r (wholeTree object) fun _ r' => r'.lastBroadDir = r.lastBroadDir := by
  refine .resolver ?_
  rcases r.tree with _ | i
  · refine .read (.next (.note ⟨rfl, rfl⟩) (.next (.update ⟨rfl, rfl⟩) ?_))
    refine Ends.bind (P := fun _ r' => r'.lastBroadDir = r.lastBroadDir) (.goOn rfl) (fun _ _ h => ?_)
      fun _ _ h => h
    exact .next (.note ⟨rfl, rfl⟩) (.pure h)
  · exact .pure rfl

theorem treeParents_primed (ht : t.IsProper) (hs : t.whole.stop = none) (h : Primed t r)
    (object : String) : Ends t r (treeParents object) fun v r' => Primed t r' ∧
      v = .ok (t.parentsAll object) := by
  refine ((wholeTree_holds h.toHeld object).and (wholeTree_last t r object)).bind
    (fun i r' ⟨⟨hr', _, hi⟩, hlast⟩ => ?_) fun e r' ⟨⟨_, _, he⟩, _⟩ => ?_
  · rw [hs] at hi
    obtain rfl : i = t.whole.index := by split at hi <;> exact Except.ok.inj hi
    have hprimed : Primed t r' := ⟨hr', hlast ▸ h.reads⟩
    dsimp only
    rw [show t.whole.index.parents object = t.parentsAll object from rfl]
    generalize hps : t.parentsAll object = ps
    rcases ps with _ | ⟨p, _ | ⟨q, qs⟩⟩
    · exact .pure ⟨hprimed, rfl⟩
    · refine .next (.update ⟨rfl, rfl⟩) (.pure ⟨⟨?_, fun dir hdir => ?_⟩, rfl⟩)
      · have hp : p ∈ t.parentsAll object := hps ▸ List.mem_cons_self
        refine ⟨hr'.source, hr'.near, hr'.nodup, hr'.told, hr'.tree, fun dir hdir => ⟨p, ?_, ?_⟩⟩
        · exact (whole_told ht (Index.mem_parents.1 hp)).2
        · exact (Option.some.inj hdir).symm
      · obtain rfl := Option.some.inj hdir
        have hp : p ∈ t.parentsAll object := hps ▸ List.mem_cons_self
        exact said_ended ht hs hp
    · exact .pure ⟨hprimed, rfl⟩
  · rw [hs] at he
    split at he <;> cases he

/-- Where parents are recorded, there is only one. -/
theorem looked_of_told (hsingle : t.Single) (ht : t.IsProper) {ps : List String} (hnodup : ps.Nodup)
    (htold : ∀ p ∈ ps, t.Told object p ∧ IsInner p)
    (hnone : ps = [] → ∀ p, ¬ t.Listed object p) : t.Looked object (.ok ps) := by
  have hlisted : ∀ p ∈ ps, t.Listed object p :=
    fun p hp => hsingle.plain _ _ ((htold p hp).1.links ht (htold p hp).2)
  rcases ps with _ | ⟨p, _ | ⟨q, qs⟩⟩
  · exact .none (hnone rfl)
  · exact .one (hlisted p (by simp)) (htold p (by simp)).2
  · have hpq := hsingle.one _ _ _ (hlisted p (by simp)) (hlisted q (by simp))
    simp [hpq] at hnodup

/-- A look in one directory keeps what the next searches go by. -/
theorem parentsIn_primed (ht : t.IsProper) (h : Primed t r) (dir object : String) :
    Ends t r (parentsIn dir object) fun v r' => Primed t r' ∧ Offered t object (dirname · = dir) v r' ∧
      ∀ e, v = .error e → (t.said (normalize dir)).stop ≠ none ∧ ∃ e', e = .ofDisk e' := by
  refine (((parentsIn_offers ht h.toHeld dir object).and (parentsIn_stops h.toHeld dir object)).and
    (parentsIn_glance t r dir object)).imp fun v r' ⟨⟨hf, hlast, hstop⟩, hg⟩ => ?_
  exact ⟨⟨hf.held, hlast ▸ h.reads⟩, hf, fun e he => ⟨hstop e he, hg.broken e he⟩⟩

theorem broadParents_primed (ht : t.IsProper) (hs : t.whole.stop = none) (h : Primed t r)
    (object : String) : Ends t r (broadParents object) fun v r' => Primed t r' ∧
      ∃ ps, v = .ok ps ∧ (ps = [] → t.parentsAll object = []) := by
  refine .resolver ?_
  rcases hr : r.lastBroadDir with _ | dir
  · exact (treeParents_primed ht hs h object).imp fun v r' ⟨hr', hv⟩ => ⟨hr', _, hv, id⟩
  · refine (parentsIn_primed ht h dir object).bind (fun ps r' ⟨hr', hf, _⟩ => ?_)
      fun e r' ⟨_, _, hstop⟩ => absurd (h.reads dir hr) (hstop e rfl).1
    cases ps with
    | nil =>
      exact (treeParents_primed ht hs hr' object).imp fun v r'' ⟨hr'', hv⟩ => ⟨hr'', _, hv, id⟩
    | cons p ps => exact .pure ⟨hr', _, rfl, nofun⟩

/-- Whatever was asked before, a look for the parents of an object inside the tree finds the one that
is listed, or that none is; it can only break off in the object's own directory. -/
theorem parents_looked (ht : t.IsProper) (hsingle : t.Single) (hs : t.whole.stop = none)
    (h : Primed t r) (object : String) : Ends t r (parents object) fun v r' => Primed t r' ∧
      (IsInner object → t.Looked object v) := by
  have hoffers := parents_offers ht h.toHeld object
  have hprimed : Ends t r (parents object) fun v r' => Primed t r' ∧
      (∀ ps, v = .ok ps → ps = [] → t.parentsAll object = []) ∧
      ∀ e, v = .error e → (t.said (normalize (dirname object))).stop ≠ none ∧ ∃ e', e = .ofDisk e' := by
    refine (parentsIn_primed ht h (dirname object) object).bind (fun ps r' ⟨hr', hf, _⟩ => ?_)
      fun e r' ⟨hr', _, hstop⟩ => ⟨hr', nofun, hstop⟩
    cases ps with
    | nil =>
      refine (broadParents_primed ht hs hr' object).imp fun v r'' ⟨hr'', ps, hv, hnone⟩ => ?_
      refine ⟨hr'', fun qs hqs => ?_, fun e he => nomatch hv.symm.trans he⟩
      obtain rfl := Except.ok.inj (hv.symm.trans hqs)
      exact hnone
    | cons p ps => exact .pure ⟨hr', fun qs hqs => Except.ok.inj hqs ▸ nofun, nofun⟩
  refine (hoffers.and hprimed).imp fun v r' ⟨hf, hr', hnone, hstop⟩ => ⟨hr', fun hin => ?_⟩
  rcases v with e | ps
  · obtain ⟨hown, e', rfl⟩ := hstop e rfl
    exact .broken e' hown
  · refine looked_of_told hsingle ht (hf.nodup ps rfl) (fun p hp => ?_) fun hnil p hp => ?_
    · obtain ⟨htold, hkin⟩ := hf.told ps rfl p hp
      rw [hin.normal] at htold
      exact ⟨htold, hkin hin⟩
    · have hmem : p ∈ t.parentsAll object :=
        Index.mem_parents.2 (by rw [hin.normal]; exact whole_complete hs hp)
      rw [hnone ps rfl hnil] at hmem
      cases hmem

/-- A way up that started inside the tree follows its parents. -/
theorem Ascent.followed (ht : t.IsProper) (hsingle : t.Single) (hs : t.whole.stop = none)
    {n : Nat} {met : List String} {current : String} {v : Except Fault Binary}
    (h : Ascent t object n r met current v r') (hr : Primed t r)
    (hample : Ample t object n met current) (hin : IsInner current)
    (hchain : Chain t.Listed object current) (hmet : ∀ m ∈ met, Relation.TransGen t.Up m current)
    (hread : current = object ∨ (t.said (normalize (dirname current))).stop = none) :
    t.Followed r.image object v := by
  induction h with
  | spent => exact absurd rfl hample.pos
  | top htop =>
    rw [hr.source]
    exact .owner hchain htop
  | cycle _ hm => exact .cycle hchain (hmet _ hm)
  | @broken n r met current e r' htop hm hlook =>
    have hl := (hlook.ends (parents_looked ht hsingle hs hr current)).2 hin
    generalize hv : (.error e : Except Fault (List String)) = v at hl
    cases hl with
    | none | one => cases hv
    | broken e' hstop =>
      cases hv
      rcases hread with rfl | hread
      · exact .broken e' hstop
      · exact absurd hread hstop
  | @lost n r met current r' htop hm hlook =>
    have hl := (hlook.ends (parents_looked ht hsingle hs hr current)).2 hin
    generalize hv : (.ok [] : Except Fault (List String)) = v at hl
    cases hl with
    | none hnone => exact .lost hchain htop hnone
    | one | broken => cases hv
  | @up n r met current p ps r₁ v r' htop hm hlook _ ih =>
    obtain ⟨hr₁, hl⟩ := hlook.ends (parents_looked ht hsingle hs hr current)
    have hb := (hlook.ends (parents_glance t r current)).beside
    have hl := hl hin
    generalize hv : (.ok (p :: ps) : Except Fault (List String)) = w at hl
    cases hl with
    | none | broken => cases hv
    | @one q hlisted hinner =>
      cases hv
      have hmem : p ∈ t.parentsAll current :=
        Index.mem_parents.2 (by rw [hin.normal]; exact whole_complete hs hlisted)
      have hup : t.Up current p := ⟨htop, hlisted⟩
      have hloop : ∀ m ∈ current :: met, Relation.TransGen t.Up m p := by
        intro m hmem
        rcases List.mem_cons.1 hmem with rfl | hmem
        · exact .single hup
        · exact (hmet m hmem).tail hup
      have htold : t.Told current p := (whole_told ht (whole_complete hs hlisted)).1
      rw [← show (r₁.choose object p []).image = r.image from hb.image]
      exact ih ⟨hr₁.toHeld.choose object p [], hr₁.reads⟩ (hample.up hm htold.mem_targets) hinner
        (hchain.tail hup) hloop (.inr (said_ended ht hs hmem))

theorem Ascent.primed (ht : t.IsProper) (hsingle : t.Single) (hs : t.whole.stop = none)
    {n : Nat} {met : List String} {current : String} {v : Except Fault Binary}
    (h : Ascent t object n r met current v r') (hr : Primed t r) : Primed t r' := by
  induction h with
  | spent | top | cycle => exact hr
  | broken _ _ hlook | lost _ _ hlook =>
    exact (hlook.ends (parents_looked ht hsingle hs hr _)).1
  | up _ _ hlook _ ih =>
    have hr₁ := (hlook.ends (parents_looked ht hsingle hs hr _)).1
    exact ih ⟨hr₁.toHeld.choose object _ _, hr₁.reads⟩

/-- Where no record anywhere lists an object of another target's record, there is never a choice. -/
theorem Ascent.unforked (ht : t.IsProper) (hone : ∀ a b c, t.Told a b → t.Told a c → b = c)
    {n : Nat} {met : List String} {current : String} {v : Except Fault Binary}
    (h : Ascent t object n r met current v r') (hr : Held t r) (x : String) :
    r'.chosen x = r.chosen x := by
  induction h with
  | spent | top | cycle => rfl
  | broken _ _ hlook | lost _ _ hlook =>
    exact (hlook.ends (parents_glance t _ _)).beside.chosen x
  | @up n r met current p ps r₁ v r' _ _ hlook _ ih =>
    have hf := hlook.ends (parents_offers ht hr current)
    rw [ih (hf.held.choose object p ps), Resolver.chosen_choose,
      (hlook.ends (parents_glance t r current)).beside.chosen]
    cases ps with
    | nil => simp
    | cons q qs =>
      have hpq : p = q := hone _ _ _ (hf.told _ rfl p (by simp)).1 (hf.told _ rfl q (by simp)).1
      have hnodup := hf.nodup _ rfl
      simp [hpq] at hnodup

end Search

/-- A resolver that holds what stands in a tree, and whose answers followed the parents. -/
structure Guided (t : Tree) (image : Binary) (r : Resolver) : Prop extends Primed t r where
  inside : r.outside = none
  linked : r.image = image
  known : ∀ object b, r.known.lookup object = some b → IsInner object →
    t.Followed image object (.ok b)

section Calls

variable {t : Tree} {image : Binary} {r r' : Resolver} {object : String}

theorem Guided.beside (h : Guided t image r) (hb : Beside r r') (hr' : Primed t r') :
    Guided t image r' := by
  refine ⟨hr', hb.outside.trans h.inside, hb.image.trans h.linked, fun x b hx => ?_⟩
  exact h.known x b (by rwa [← hb.known])

theorem Guided.passed {v : Except Fault Binary} (ht : t.IsProper) (hsingle : t.Single)
    (hs : t.whole.stop = none) (h : Guided t image r)
    (hasc : Search.Ascent t object (Search.height t.disk r) r [] object v r') :
    Guided t image r' ∧ (IsInner object → t.Followed image object v) := by
  have hp := hasc.passed
  refine ⟨⟨hasc.primed ht hsingle hs h.toPrimed, hp.outside.trans h.inside,
    hp.image.trans h.linked, fun x b hx => ?_⟩, fun hin => ?_⟩
  · exact h.known x b (by rwa [← hp.known])
  · rw [← h.linked]
    exact hasc.followed ht hsingle hs h.toPrimed (ample_height t r object) hin .refl nofun (.inl rfl)

theorem Guided.keep {b : Binary} (h : Guided t image r)
    (hb : IsInner object → t.Followed image object (.ok b)) : Guided t image (r.keep object b) := by
  refine ⟨⟨h.toHeld.keep object b, h.reads⟩, h.inside, h.linked, fun x b' hx hin => ?_⟩
  rcases Resolver.lookup_keep hx with ⟨rfl, rfl⟩ | hx
  · exact hb hin
  · exact h.known x b' hx hin

theorem owner_guided (ht : t.IsProper) (hsingle : t.Single) (hs : t.whole.stop = none)
    (h : Guided t image r) (object : String) :
    Search.Ends t r (Search.owner object) fun v r' => Guided t image r' ∧
      (IsInner (normalize object) → t.Followed image (normalize object) v) := by
  refine (Search.owner_owned t r object).imp fun v r' howned => ?_
  generalize normalize object = object at howned ⊢
  cases howned with
  | outside hout => exact nomatch hout.symm.trans h.inside
  | known _ hk => exact ⟨h, h.known object _ hk⟩
  | found _ _ hasc =>
    obtain ⟨hr', hfollowed⟩ := h.passed ht hsingle hs hasc
    exact ⟨hr'.keep hfollowed, hfollowed⟩
  | failed _ _ hasc => exact h.passed ht hsingle hs hasc

theorem call_guided (ht : t.IsProper) (hsingle : t.Single) (hs : t.whole.stop = none)
    (h : Guided t image r) (call : Call) :
    Search.Ends t r call.search fun _ r' => Guided t image r' :=
  Search.call_ends (fun object => (owner_guided ht hsingle hs h object).imp fun _ _ hg => hg.1)
    (fun dir object => (Search.parentsIn_primed ht h.toPrimed dir object).imp
      fun _ _ hf hg => h.beside hg.beside hf.1)
    (fun object => (Search.broadParents_primed ht hs h.toPrimed object).imp
      fun _ _ hf hg => h.beside hg.beside hf.1) call

/-- A resolver that never had to choose. -/
structure Unforked (t : Tree) (r : Resolver) : Prop extends Held t r where
  unchosen : ∀ object, r.chosen object = false

theorem owner_unforked (ht : t.IsProper) (hone : ∀ a b c, t.Told a b → t.Told a c → b = c)
    (h : Unforked t r) (object : String) :
    Search.Ends t r (Search.owner object) fun _ r' => Unforked t r' := by
  refine (Search.owner_owned t r object).imp fun v r' howned => ?_
  cases howned with
  | outside | known => exact h
  | found _ _ hasc =>
    exact ⟨(hasc.held ht h.toHeld).keep _ _,
      fun x => (hasc.unforked ht hone h.toHeld x).trans (h.unchosen x)⟩
  | failed _ _ hasc =>
    exact ⟨hasc.held ht h.toHeld, fun x => (hasc.unforked ht hone h.toHeld x).trans (h.unchosen x)⟩

theorem call_unforked (ht : t.IsProper) (hone : ∀ a b c, t.Told a b → t.Told a c → b = c)
    (h : Unforked t r) (call : Call) :
    Search.Ends t r call.search fun _ r' => Unforked t r' :=
  Search.call_ends (owner_unforked ht hone h)
    (fun dir object => (Search.parentsIn_offers ht h.toHeld dir object).imp
      fun _ _ hf hg => ⟨hf.held, fun x => (hg.beside.chosen x).trans (h.unchosen x)⟩)
    (fun object => (Search.broadParents_offers ht h.toHeld object).imp
      fun _ _ hf hg => ⟨hf.held, fun x => (hg.beside.chosen x).trans (h.unchosen x)⟩) call

end Calls

namespace Tree.Followed

variable {t : Tree} {image : Binary} {object c : String} {v : Except Fault Binary}

theorem of_top (h : t.Followed image object v) (hsingle : t.Single)
    (hread : (t.said (normalize (dirname object))).stop = none) (hc : Chain t.Listed object c)
    (htop : isTop c = true) : v = .ok (binaryAt t.source image c) := by
  have hend := t.not_up_of_top htop
  cases h with
  | owner hchain htop' => rw [hsingle.ends hc hchain hend (t.not_up_of_top htop')]
  | @lost c' hchain htop' hnone =>
    obtain rfl := hsingle.ends hc hchain hend fun x hx => hnone x hx.2
    rw [htop] at htop'
    cases htop'
  | cycle hchain hcycle => exact absurd hcycle (hsingle.acyclic hc hchain hend)
  | broken e hstop => exact absurd hread hstop

theorem of_lost (h : t.Followed image object v) (hsingle : t.Single)
    (hread : (t.said (normalize (dirname object))).stop = none) (hc : Chain t.Listed object c)
    (htop : isTop c = false) (hnone : ∀ p, ¬ t.Listed c p) :
    v = .error (.failure (.unresolved object ("invalid ancestor " ++ c))) := by
  have hend : ∀ x, ¬ t.Up c x := fun x hx => hnone x hx.2
  cases h with
  | @owner c' hchain htop' =>
    obtain rfl := hsingle.ends hc hchain hend (t.not_up_of_top htop')
    rw [htop] at htop'
    cases htop'
  | lost hchain htop' hnone' => rw [hsingle.ends hc hchain hend fun x hx => hnone' x hx.2]
  | cycle hchain hcycle => exact absurd hcycle (hsingle.acyclic hc hchain hend)
  | broken e hstop => exact absurd hread hstop

theorem of_cycle (h : t.Followed image object v) (hsingle : t.Single)
    (hread : (t.said (normalize (dirname object))).stop = none) (hc : Chain t.Listed object c)
    (hcycle : Relation.TransGen t.Up c c) : ∃ c', Chain t.Listed object c' ∧
      v = .error (.failure (.unresolved object ("dependency cycle at " ++ c'))) := by
  cases h with
  | owner hchain htop => exact absurd hcycle (hsingle.acyclic hchain hc (t.not_up_of_top htop))
  | lost hchain _ hnone =>
    exact absurd hcycle (hsingle.acyclic hchain hc fun x hx => hnone x hx.2)
  | cycle hchain _ => exact ⟨_, hchain, rfl⟩
  | broken e hstop => exact absurd hread hstop

/-- One of three things happens on the way up. -/
theorem cases (h : t.Followed image object v)
    (hread : (t.said (normalize (dirname object))).stop = none) :
    (∃ c, Chain t.Listed object c ∧ isTop c = true) ∨
      (∃ c, Chain t.Listed object c ∧ isTop c = false ∧ ∀ p, ¬ t.Listed c p) ∨
      ∃ c, Chain t.Listed object c ∧ Relation.TransGen t.Up c c := by
  cases h with
  | owner hchain htop => exact .inl ⟨_, hchain, htop⟩
  | lost hchain htop hnone => exact .inr (.inl ⟨_, hchain, htop, hnone⟩)
  | cycle hchain hcycle => exact .inr (.inr ⟨_, hchain, hcycle⟩)
  | broken e hstop => exact absurd hread hstop

end Tree.Followed

section Resolvers

variable {d : Disk} {cwd : Place} {source image : String} {outside : Option String}
  {object : String}

/-- In a tree where no object goes into two targets, and which can be read as a whole, the way up from
an object decides what its owner is, whatever was asked before and however it ended; and no object is
called ambiguous. -/
theorem owner_followed (hd : d.IsProper) (hc : cwd.IsProper)
    (hout : (Resolver.ofTree cwd source image outside).outside = none)
    (hsingle : (treeOf d cwd source).Single) (hs : (treeOf d cwd source).whole.stop = none)
    (ho : IsInner object)
    (hread : ((treeOf d cwd source).said (normalize (dirname object))).stop = none)
    (calls : List Call) :
    let t := treeOf d cwd source
    let before := (Resolver.ofTree cwd source image outside).after d cwd calls
    let v := (before.2.ask d cwd object).1
    let r := (before.2.ask d cwd object).2
    (∀ c, Chain t.Listed object c → isTop c = true →
        v = .ok (binaryAt (absolute cwd.text source) ⟨absolute cwd.text image, true⟩ c)) ∧
      (∀ c, Chain t.Listed object c → isTop c = false → (∀ p, ¬ t.Listed c p) →
        v = .error (.failure (.unresolved object ("invalid ancestor " ++ c)))) ∧
      (∀ c, Chain t.Listed object c → Relation.TransGen t.Up c c → ∃ c', Chain t.Listed object c' ∧
        v = .error (.failure (.unresolved object ("dependency cycle at " ++ c')))) ∧
      ((∃ c, Chain t.Listed object c ∧ isTop c = true) ∨
        (∃ c, Chain t.Listed object c ∧ isTop c = false ∧ ∀ p, ¬ t.Listed c p) ∨
        ∃ c, Chain t.Listed object c ∧ Relation.TransGen t.Up c c) ∧
      (∀ x, IsInner (normalize x) → r.isAmbiguous x = false) ∧
      ((∀ a b c, t.Told a b → t.Told a c → b = c) → ∀ x, r.isAmbiguous x = false) := by
  intro t before v r
  have ht : t.IsProper := ⟨hd, hc, isAbsolute_absolute hc source⟩
  -- what the calls before leave, and then what this call does
  have hguided : Guided t ⟨absolute cwd.text image, true⟩ before.2 :=
    Search.after_keeps (fun call r hr => call_guided ht hsingle hs hr call)
      ⟨⟨ofTree_held, nofun⟩, hout, rfl, nofun⟩ calls
  have hgrounded : Grounded t ⟨absolute cwd.text image, true⟩ before.2 :=
    Search.after_keeps (fun call r hr => call_grounded ht hr call)
      ⟨ofTree_held, hout, rfl, nofun, nofun⟩ calls
  have hfollowed := (owner_guided ht hsingle hs hguided object []).2
  have hforked := (owner_grounded ht hgrounded object []).1.forked
  rw [ho.normal] at hfollowed
  have hf : t.Followed ⟨absolute cwd.text image, true⟩ object v := hfollowed ho
  refine ⟨fun c hchain => hf.of_top hsingle hread hchain, fun c hchain => hf.of_lost hsingle hread hchain,
    fun c hchain => hf.of_cycle hsingle hread hchain, hf.cases hread, fun x hx => ?_,
    fun hone x => ?_⟩
  · rw [Resolver.isAmbiguous_eq, ← Bool.not_eq_true]
    intro hchosen
    obtain ⟨n, p, q, -, -, hne, hp, hq⟩ := hforked _ hchosen hx
    exact hne (hsingle.one n p q (hsingle.plain _ _ hp) (hsingle.plain _ _ hq))
  · have hunforked : Unforked t before.2 :=
      Search.after_keeps (fun call r hr => call_unforked ht hone hr call)
        ⟨ofTree_held, fun _ => rfl⟩ calls
    exact (owner_unforked ht hone hunforked object []).unchosen (normalize x)

end Resolvers

namespace Sample

theorem gathered_single : (treeOf gathered ["w"] "l").Single :=
  ⟨fun _ _ h => h.listed gathered_proper (by decide +kernel) (by decide +kernel) (by decide +kernel),
    fun _ _ _ hb hc => (gathered_listed hb).trans (gathered_listed hc).symm⟩

end Sample

theorem owner_followed_gathered :
    (((Sample.fresh.after Sample.gathered ["w"] Sample.calls).2.ask Sample.gathered ["w"]
      "k/cpu/intel.o").1 = .ok (binaryAt (absolute (Place.text ["w"]) "l")
        ⟨absolute (Place.text ["w"]) "l/vmlinux", true⟩ "k/built-in.a")) ∧
    ((Sample.fresh.after Sample.gathered ["w"] Sample.calls).2.ask Sample.gathered ["w"]
      "k/none.o").1 = .error (.failure (.unresolved "k/none.o" ("invalid ancestor " ++ "k/none.o"))) := by
  have hd := Sample.gathered_proper.disk
  have hc := Sample.gathered_proper.cwd
  have hs : (treeOf Sample.gathered ["w"] "l").whole.stop = none := by decide +kernel
  have hnone : ∀ p, ¬ (treeOf Sample.gathered ["w"] "l").Listed "k/none.o" p := by
    intro p hp
    have hmem : p ∈ (treeOf Sample.gathered ["w"] "l").parentsAll "k/none.o" :=
      Index.mem_parents.2 (whole_complete hs (Sample.inner_gathered.2.normal.symm ▸ hp))
    have hempty : (treeOf Sample.gathered ["w"] "l").parentsAll "k/none.o" = [] := by decide +kernel
    rw [hempty] at hmem
    cases hmem
  have hlisted : (treeOf Sample.gathered ["w"] "l").Listed "k/cpu/intel.o" "k/built-in.a" := by
    refine ⟨["k"], ".built-in.a.cmd", ?_⟩
    exact ⟨by decide, ⟨⟨by decide, by decide, by decide⟩, by decide⟩, by decide, by decide +kernel⟩
  exact ⟨(owner_followed hd hc rfl Sample.gathered_single hs Sample.inner_gathered.1
      (by decide +kernel) Sample.calls).1 "k/built-in.a" (.single ⟨by decide +kernel, hlisted⟩)
      (by decide +kernel),
    (owner_followed hd hc rfl Sample.gathered_single hs Sample.inner_gathered.2
      (by decide +kernel) Sample.calls).2.1 "k/none.o" .refl (by decide +kernel) hnone⟩

end Hotpatch.Kbuild
