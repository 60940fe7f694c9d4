import Hotpatch.Proofs.Kbuild.Climb

/-! Owners don't depend on what was asked before. What a resolver keeps from one call to the next
only saves work, as long as the parents of an object are recorded clearly; where they are torn apart,
an earlier search can tip the scale. -/

namespace Hotpatch.Kbuild

namespace Resolver

/-- One call on a file tree: what it tells, and the resolver afterwards. -/
def ask (r : Resolver) (d : Disk) (cwd : Place) (object : String) :
    Except Fault Binary × Resolver :=
  let (a, s) := Search.owner object (d, cwd) ⟨r, []⟩
  (a, s.resolver)

/-- Calls one after another. -/
def serve (r : Resolver) (d : Disk) (cwd : Place) :
    List String → List (Except Fault Binary) × Resolver
  | [] => ([], r)
  | object :: objects =>
    let (a, r) := r.ask d cwd object
    let (as, r) := r.serve d cwd objects
    (a :: as, r)

end Resolver

/-- What a way up ends in that is as long as it has to be. -/
def Tree.answer (t : Tree) (image : Binary) (object : String) : Except Fault Binary × Bool :=
  t.rise image object (t.targets.length + 2) [] object

/-- A resolver that knows rightly and whose answers were right. -/
structure Learned (t : Tree) (image : Binary) (r : Resolver) : Prop extends Steady t r where
  inside : r.outside = none
  known : ∀ object b, r.known.lookup object = some b → t.Settled object →
    t.answer image object = (.ok b, r.chosen object)
  chosen : ∀ object, r.chosen object = true → t.Settled object → (t.answer image object).2 = true
  linked : r.image = image

/-- How a call ends for a resolver whose answers were right. -/
structure Answered (t : Tree) (image : Binary) (object : String) (v : Except Fault Binary)
    (r' : Resolver) : Prop where
  learned : isAnswer v = true → Learned t image r'
  agrees : t.Settled object → (v, r'.chosen object) = t.answer image object

section Calls

variable {t : Tree} {image : Binary} {r : Resolver}

theorem answer_enough (ht : t.IsProper) (r : Resolver) (image : Binary) (object : String) :
    t.rise image object (Search.height t.disk r) [] object = t.answer image object := by
  exact rise_enough ht image (ample_height t r object) (ample_start t object)

/-- After a way up, a choice is noted for the object if there was one on it now or before. -/
theorem Climbed.chosen {object : String} {v : Except Fault Binary} {r' : Resolver}
    (h : Learned t image r)
    (hc : Climbed t r object object (t.answer image object) v r') (hs : t.Settled object) :
    (v, r'.chosen object) = t.answer image object := by
  obtain ⟨hv, hchosen⟩ := hc.agrees hs
  have hbefore : (r.chosen object || (t.answer image object).2) = (t.answer image object).2 := by
    cases hr : r.chosen object with
    | true => rw [h.chosen object hr hs]; rfl
    | false => rfl
  rw [hv, hchosen, hbefore]

theorem Climbed.learned {object : String} {v : Except Fault Binary} {r' : Resolver}
    (h : Learned t image r) (hk : r.known.lookup object = none) (hp : Passed r object r')
    (hc : Climbed t r object object (t.answer image object) v r') (hv : isAnswer v = true) :
    Learned t image r' := by
  refine ⟨hc.steady hv, hp.outside.trans h.inside, fun x b hx hs => ?_, fun x hx hs => ?_,
    hp.image.trans h.linked⟩
  · obtain ⟨hx, hchosen⟩ := hp.lookup hk hx
    rw [hchosen]
    exact h.known x b hx hs
  · by_cases heq : x = object
    · rw [heq] at hx hs ⊢
      rw [← hc.chosen h hs]
      exact hx
    · rw [hp.others x heq] at hx
      exact h.chosen x hx hs

theorem Learned.keep {object : String} {b : Binary} (h : Learned t image r)
    (hb : t.Settled object → t.answer image object = (.ok b, r.chosen object)) :
    Learned t image (r.keep object b) := by
  refine ⟨h.toSteady.keep object b, h.inside, fun x c hx hs => ?_, h.chosen, h.linked⟩
  have hchosen : (r.keep object b).chosen x = r.chosen x := rfl
  rw [hchosen]
  rcases Resolver.lookup_keep hx with ⟨rfl, rfl⟩ | hx
  · exact hb hs
  · exact h.known x c hx hs

theorem owner_ends (ht : t.IsProper) (h : Learned t image r) (object : String) :
    Search.Ends t r (Search.owner object) (Answered t image (normalize object)) := by
  refine (Search.owner_owned t r object).imp fun v r' howned => ?_
  generalize normalize object = object at howned ⊢
  have hway : ∀ {v r'}, Search.Ascent t object (Search.height t.disk r) r [] object v r' →
      Climbed t r object object (t.answer image object) v r' := by
    intro v r' hasc
    have hclimb := hasc.climbed ht h.toSteady
    rwa [answer_enough ht, h.linked] at hclimb
  cases howned with
  | outside hout => exact nomatch hout.symm.trans h.inside
  | @known b _ hk => exact ⟨fun _ => h, fun hs => (h.known object b hk hs).symm⟩
  | @found b r' _ hk hasc =>
    have hl := (hway hasc).learned h hk hasc.passed rfl
    have hchosen : t.Settled object → (.ok b, r'.chosen object) = t.answer image object :=
      (hway hasc).chosen h
    exact ⟨fun _ => hl.keep fun hs => (hchosen hs).symm, hchosen⟩
  | failed _ hk hasc => exact ⟨(hway hasc).learned h hk hasc.passed, (hway hasc).chosen h⟩

/-- Right answers are given, and learned from, in every order of calls. -/
theorem serve_learned (ht : t.IsProper) (h : Learned t image r) (objects : List String)
    (ha : ∀ a ∈ (r.serve t.disk t.cwd objects).1, isAnswer a = true) :
    Learned t image (r.serve t.disk t.cwd objects).2 := by
  induction objects generalizing r with
  | nil => exact h
  | cons object objects ih =>
    rw [Resolver.serve] at ha ⊢
    dsimp only at ha ⊢
    have hcall := (owner_ends ht h object []).learned (ha _ List.mem_cons_self)
    exact ih hcall fun a hm => ha a (List.mem_cons_of_mem _ hm)

end Calls

theorem isAbsolute_absolute {cwd : Place} (hc : cwd.IsProper) (s : String) :
    isAbsolute (absolute cwd.text s) = true := by
  have hcwd : isAbsolute cwd.text = true := by
    rw [isAbsolute_iff_slashes, Place.ofText_text hc]
    exact Nat.one_ne_zero
  have hunder := isAbsolute_under s hcwd
  rw [under, glue] at hunder
  rw [absolute, glue]
  split at hunder <;> simp_all

section Resolvers

variable {d : Disk} {cwd : Place} {source image : String} {outside : Option String}
  {objects₁ objects₂ : List String} {object : String}

/-- The tree that a resolver is made for. -/
def treeOf (d : Disk) (cwd : Place) (source : String) : Tree :=
  ⟨d, cwd, absolute cwd.text source⟩

theorem ofTree_learned (h : (Resolver.ofTree cwd source image outside).outside = none) :
    Learned (treeOf d cwd source) ⟨absolute cwd.text image, true⟩
      (Resolver.ofTree cwd source image outside) :=
  ⟨⟨rfl, .empty (treeOf d cwd source), nofun, nofun⟩, h, nofun, nofun, rfl⟩

/-- A module from outside the tree owns every object. -/
theorem serve_outside {r : Resolver} {m : Binary} (h : r.outside = some m) (objects : List String) :
    (r.serve d cwd objects).2 = r := by
  have hask : ∀ object, (r.ask d cwd object).2 = r := by
    intro object
    have hends : Search.Ends (treeOf d cwd "") r (Search.owner object) fun _ r' => r' = r := by
      unfold Search.owner
      dsimp only
      refine .resolver ?_
      rw [h]
      exact .pure rfl
    exact hends []
  induction objects with
  | nil => rfl
  | cons object objects ih =>
    rw [Resolver.serve]
    dsimp only
    rw [hask, ih]

/-- Where the parents of every object on the way up are recorded clearly, the owner of an object and
whether it is ambiguous don't depend on what either of two resolvers was asked before. -/
theorem owner_regardless (hd : d.IsProper) (hc : cwd.IsProper)
    (h₁ : ∀ a ∈ ((Resolver.ofTree cwd source image outside).serve d cwd objects₁).1,
      isAnswer a = true)
    (h₂ : ∀ a ∈ ((Resolver.ofTree cwd source image outside).serve d cwd objects₂).1,
      isAnswer a = true)
    (hs : (treeOf d cwd source).Settled (normalize object)) :
    let r₁ := ((Resolver.ofTree cwd source image outside).serve d cwd objects₁).2
    let r₂ := ((Resolver.ofTree cwd source image outside).serve d cwd objects₂).2
    (r₁.ask d cwd object).1 = (r₂.ask d cwd object).1 ∧
      (r₁.ask d cwd object).2.isAmbiguous object = (r₂.ask d cwd object).2.isAmbiguous object := by
  intro r₁ r₂
  have ht : (treeOf d cwd source).IsProper := ⟨hd, hc, isAbsolute_absolute hc source⟩
  rcases hout : (Resolver.ofTree cwd source image outside).outside with _ | m
  · have hr₁ := serve_learned ht (ofTree_learned hout) objects₁ h₁
    have hr₂ := serve_learned ht (ofTree_learned hout) objects₂ h₂
    have heq := ((owner_ends ht hr₁ object []).agrees hs).trans
      ((owner_ends ht hr₂ object []).agrees hs).symm
    exact Prod.mk.inj heq
  · have hr₁ : r₁ = Resolver.ofTree cwd source image outside := serve_outside hout objects₁
    have hr₂ : r₂ = Resolver.ofTree cwd source image outside := serve_outside hout objects₂
    rw [hr₁, hr₂]
    exact ⟨rfl, rfl⟩

end Resolvers

namespace Sample

/-- Two objects go into one archive in another directory. -/
def gathered : Disk := ⟨[(["w"], .dir), (["w", "l"], .dir), (["w", "l", "k"], .dir),
  (["w", "l", "k", ".built-in.a.cmd"], file "cmd_k := ar k/cpu/amd.o k/cpu/intel.o")], 1⟩

/-- One object goes into two modules in different directories, another one into the second of these
only. -/
def torn : Disk := ⟨[(["w"], .dir), (["w", "l"], .dir), (["w", "l", "a"], .dir),
  (["w", "l", "b"], .dir), (["w", "l", "a", ".m.ko.cmd"], file "cmd_m := c/x.o"),
  (["w", "l", "b", ".n.ko.cmd"], file "cmd_n := c/x.o c/y.o")], 1⟩

def fresh : Resolver := .ofTree ["w"] "l" "l/vmlinux" none

theorem gathered_proper : (treeOf gathered ["w"] "l").IsProper := by decide +kernel

theorem gathered_told : gathered.nodes.flatMap (fun q => ((treeOf gathered ["w"] "l").told q.1).edges) =
    [⟨"k/cpu/amd.o", "k/built-in.a"⟩, ⟨"k/cpu/intel.o", "k/built-in.a"⟩] := by decide +kernel

theorem gathered_edge {e : Edge} {taken : String → Bool} {dir : String}
    (htaken : ∀ n, taken n = true → Contribution.isRecordName n = true)
    (he : e ∈ (Contribution.ofDirectory taken gathered ["w"]
      (clean (treeOf gathered ["w"] "l").source) dir).edges) :
    e.target = "k/built-in.a" ∧ e ∈ ((treeOf gathered ["w"] "l").said "k").edges := by
  obtain ⟨q, hq, he⟩ := edge_of_node gathered_proper.disk gathered_proper.cwd
    (isAbsolute_clean gathered_proper.source) htaken he
  have hmem : e ∈ gathered.nodes.flatMap
      (fun q => ((treeOf gathered ["w"] "l").told q.1).edges) := List.mem_flatMap.2 ⟨q, hq, he⟩
  rw [gathered_told] at hmem
  have hsaid : ((treeOf gathered ["w"] "l").said "k").edges =
      [⟨"k/cpu/amd.o", "k/built-in.a"⟩, ⟨"k/cpu/intel.o", "k/built-in.a"⟩] := by decide +kernel
  refine ⟨?_, hsaid ▸ hmem⟩
  rcases List.mem_cons.1 hmem with rfl | hmem
  · rfl
  · rw [List.mem_singleton.1 hmem]

theorem gathered_settled : (treeOf gathered ["w"] "l").Settled "k/cpu/intel.o" := by
  have hlook : (treeOf gathered ["w"] "l").look "k/cpu/intel.o" = .ok ["k/built-in.a"] := by
    decide +kernel
  have hway : ∀ n, (treeOf gathered ["w"] "l").Way "k/cpu/intel.o" n → isTop n = false →
      n = "k/cpu/intel.o" := by
    intro n hn
    induction hn with
    | here => exact fun _ => rfl
    | up hn htop hl ih =>
      rw [ih htop, hlook] at hl
      cases hl
      exact fun h => absurd h (by decide +kernel)
  intro n hn htop
  rw [hway n hn htop]
  refine ⟨fun dir e he _ => ?_, fun _ o p hp => .inr ?_⟩
  · obtain ⟨htarget, hk⟩ := gathered_edge (fun _ => Contribution.isRecordName_of_full) he
    have hdir : normalize (dirname e.target) = "k" := by
      rw [htarget]
      decide +kernel
    rw [hdir]
    exact hk
  · have hmem : p ∈ (treeOf gathered ["w"] "l").parentsAll o := hp ▸ List.mem_singleton_self p
    obtain ⟨dir, -, he⟩ := whole_edges (Index.mem_parents.1 hmem)
    have htarget : p = "k/built-in.a" := (gathered_edge (fun _ h => h) he).1
    rw [htarget]
    decide +kernel

end Sample

theorem owner_regardless_gathered :
    let r := (Sample.fresh.serve Sample.gathered ["w"] ["k/cpu/amd.o", "k/none.o"]).2
    (Sample.fresh.ask Sample.gathered ["w"] "k/cpu/intel.o").1 =
        (r.ask Sample.gathered ["w"] "k/cpu/intel.o").1 ∧
      (Sample.fresh.ask Sample.gathered ["w"] "k/cpu/intel.o").2.isAmbiguous "k/cpu/intel.o" =
        (r.ask Sample.gathered ["w"] "k/cpu/intel.o").2.isAmbiguous "k/cpu/intel.o" :=
  owner_regardless Sample.gathered_proper.disk Sample.gathered_proper.cwd
    (show ∀ a ∈ (Sample.fresh.serve Sample.gathered ["w"] []).1, isAnswer a = true by nofun)
    (by decide +kernel) Sample.gathered_settled

/-- Where an object goes into several directories, a search before can tell which one is met, and
hide the others. -/
theorem owner_torn :
    let r := (Sample.fresh.serve Sample.torn ["w"] ["c/y.o"]).2
    (Sample.fresh.ask Sample.torn ["w"] "c/x.o").1 = .ok ⟨"/w/l/a/m.ko", false⟩ ∧
      (Sample.fresh.ask Sample.torn ["w"] "c/x.o").2.isAmbiguous "c/x.o" = true ∧
      (r.ask Sample.torn ["w"] "c/x.o").1 = .ok ⟨"/w/l/b/n.ko", false⟩ ∧
      (r.ask Sample.torn ["w"] "c/x.o").2.isAmbiguous "c/x.o" = false := by
  decide +kernel

end Hotpatch.Kbuild
