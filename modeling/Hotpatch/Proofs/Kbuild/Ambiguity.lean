import Hotpatch.Proofs.Kbuild.Outcomes

/-! Objects that go into several binaries. A search is content with the parents in the object's own
directory, or in the one where the last search of the tree succeeded, and doesn't see those elsewhere.
Where no parents are hidden in this way, an owner that is told without a warning is the only one. -/

namespace Hotpatch.Kbuild

namespace Tree

/-- A parent that stands by itself in the object's own directory, or in a remembered one, is the only
parent. -/
def Lone (t : Tree) (object : String) : Prop :=
  ∀ dir, dir = dirname object ∨ t.Remembered dir → ∀ p, t.Told object p → dirname p = dir →
    (∀ q ∈ t.parentsIn dir object, q = p) → ∀ q, t.Listed object q → q = p

/-- Nothing on a chain from an object has a hidden parent. -/
def Plain (t : Tree) (object : String) : Prop :=
  ∀ n, Chain t.Listed object n → isTop n = false → t.Lone n

/-- All chains from an object lead into one binary. -/
def Sole (t : Tree) (image : Binary) (object : String) (b : Binary) : Prop :=
  ∀ c, Chain t.Listed object c → isTop c = true → b = binaryAt t.source image c

variable {t : Tree} {image : Binary} {object p : String} {b : Binary}

/-- Where one parent is offered and none is hidden, it is the only one. -/
theorem Offers.only (h : t.Offers object [p]) (hn : normalize object = object)
    (hl : t.Lone object) (q : String) (hq : t.Listed object q) : q = p := by
  generalize hps : [p] = ps at h
  cases h with
  | all hs =>
    have hmem : q ∈ t.parentsAll object :=
      Index.mem_parents.2 (by rw [hn]; exact whole_complete hs hq)
    rw [← hps] at hmem
    exact List.mem_singleton.1 hmem
  | @some dir _ hdir _ htold hsub =>
    obtain ⟨hp, hpdir⟩ := htold p (hps ▸ List.mem_singleton_self p)
    rw [hn] at hp
    refine hl dir hdir p hp hpdir (fun q' hq' => ?_) q hq
    have hmem := hsub hq'
    rw [← hps] at hmem
    exact List.mem_singleton.1 hmem

theorem Sole.top (htop : isTop object = true) :
    t.Sole image object (binaryAt t.source image object) := by
  intro c hchain _
  rcases Relation.ReflTransGen.cases_head hchain with rfl | ⟨d, ⟨hno, -⟩, -⟩
  · rfl
  · rw [htop] at hno
    cases hno

theorem Sole.up (htop : isTop object = false) (honly : ∀ q, t.Listed object q → q = p)
    (h : t.Listed object p → t.Sole image p b) : t.Sole image object b := by
  intro c hchain hc
  rcases Relation.ReflTransGen.cases_head hchain with rfl | ⟨d, ⟨-, hd⟩, hrest⟩
  · rw [htop] at hc
    cases hc
  · obtain rfl := honly d hd
    exact h hd c hrest hc

end Tree

section Calls

variable {t : Tree} {image : Binary} {r r' : Resolver} {object current : String} {n : Nat}
  {met : List String} {v : Except Fault Binary}

/-- A way up without a choice is the only one. -/
theorem Search.Ascent.sole (ht : t.IsProper) (h : Search.Ascent t object n r met current v r')
    (hr : Steady t r) (hn : normalize current = current) {b : Binary} (hv : v = .ok b)
    (hc : r'.chosen object = false) :
    r.chosen object = false ∧ (t.Plain current → t.Sole r.image current b) := by
  induction h with
  | spent => cases hv
  | top htop =>
    cases hv
    rw [hr.source]
    exact ⟨hc, fun _ => .top htop⟩
  | cycle => cases hv
  | broken => cases hv
  | lost => cases hv
  | @up n r met current p ps r₁ v r' htop hm hlook _ ih =>
    obtain ⟨hr₁, hoffers⟩ := hlook.ends (parents_reasoned ht hr current) _ rfl
    have hb := (hlook.ends (parents_glance t r current)).beside
    have hp := hoffers.told ht p List.mem_cons_self
    obtain ⟨hchosen, hsole⟩ := ih (hr₁.choose object p ps) (hp.normal ht) hv hc
    rw [Resolver.chosen_choose, Bool.or_eq_false_iff] at hchosen
    obtain ⟨hbefore, hnone⟩ := hchosen
    obtain rfl : ps = [] := by simpa using hnone
    refine ⟨by rwa [← hb.chosen], fun hplain => ?_⟩
    refine .up htop (hoffers.only hn (hplain current .refl htop)) fun hlisted => ?_
    rw [← hb.image]
    exact hsole fun m hm => hplain m (hm.head ⟨htop, hlisted⟩)

/-- A resolver that knows rightly, and that told the only owner of every object it called
unambiguous. -/
structure Candid (t : Tree) (image : Binary) (r : Resolver) : Prop extends Steady t r where
  inside : r.outside = none
  linked : r.image = image
  known : ∀ object b, r.known.lookup object = some b → r.chosen object = false →
    t.Plain object → t.Sole image object b

theorem Candid.beside (h : Candid t image r) (hb : Beside r r') (hr' : Steady t r') :
    Candid t image r' := by
  refine ⟨hr', hb.outside.trans h.inside, hb.image.trans h.linked, fun x b hx hc => ?_⟩
  rw [hb.known] at hx
  rw [hb.chosen] at hc
  exact h.known x b hx hc

theorem Candid.passed (h : Candid t image r) (hk : r.known.lookup object = none)
    (hp : Passed r object r') (hr' : Steady t r') : Candid t image r' := by
  refine ⟨hr', hp.outside.trans h.inside, hp.image.trans h.linked, fun x b hx hc => ?_⟩
  obtain ⟨hx, hchosen⟩ := hp.lookup hk hx
  rw [hchosen] at hc
  exact h.known x b hx hc

theorem Candid.keep {b : Binary} (h : Candid t image r)
    (hb : r.chosen object = false → t.Plain object → t.Sole image object b) :
    Candid t image (r.keep object b) := by
  refine ⟨h.toSteady.keep object b, h.inside, h.linked, fun x b' hx hc => ?_⟩
  rcases Resolver.lookup_keep hx with ⟨rfl, rfl⟩ | hx
  · exact hb hc
  · exact h.known x b' hx hc

theorem owner_candid (ht : t.IsProper) (h : Candid t image r) (object : String) :
    Search.Ends t r (Search.owner object) fun v r' => (isAnswer v = true → Candid t image r') ∧
      ∀ b, v = .ok b → r'.chosen (normalize object) = false → t.Plain (normalize object) →
        t.Sole image (normalize object) b := by
  refine (Search.owner_owned t r object).imp fun v r' howned => ?_
  have hn := normalize_normalize object
  generalize normalize object = object at howned hn ⊢
  cases howned with
  | outside hout => exact nomatch hout.symm.trans h.inside
  | @known b _ hk =>
    refine ⟨fun _ => h, fun b' hb' => ?_⟩
    obtain rfl := Except.ok.inj hb'
    exact h.known object b hk
  | @found b r' _ hk hasc =>
    have hsole : r'.chosen object = false → t.Plain object → t.Sole image object b :=
      fun hc => h.linked ▸ (hasc.sole ht h.toSteady hn rfl hc).2
    have hr' := h.passed hk hasc.passed ((hasc.climbed ht h.toSteady).steady rfl)
    refine ⟨fun _ => hr'.keep hsole, fun b' hb' => ?_⟩
    obtain rfl := Except.ok.inj hb'
    exact hsole
  | failed _ hk hasc =>
    exact ⟨fun hv => h.passed hk hasc.passed ((hasc.climbed ht h.toSteady).steady hv), nofun⟩

theorem call_candid (ht : t.IsProper) (h : Candid t image r) (call : Call) :
    Search.Ends t r call.search fun v r' => isAnswer v = true → Candid t image r' :=
  Search.call_ends (fun object => (owner_candid ht h object).imp fun v _ hc => isAnswer_map v ▸ hc.1)
    (fun dir object => (Search.parentsIn_ends h.toSteady dir object).imp
      fun v _ hf hg => isAnswer_map v ▸ fun hv => h.beside hg.beside (hg.answered hf.steady hv))
    (fun object => (Search.broadParents_ends ht h.toSteady object).imp
      fun v _ hf hg => isAnswer_map v ▸ fun hv => h.beside hg.beside (hg.answered hf.steady hv)) call

end Calls

section Resolvers

variable {d : Disk} {cwd : Place} {source image : String} {outside : Option String}
  {object : String}

/-- Where nothing on the chains from an object has a hidden parent, an owner that is told, and of which
the resolver doesn't call the object ambiguous afterwards, is the binary that all chains lead into. -/
theorem owner_sole (hd : d.IsProper) (hc : cwd.IsProper)
    (hout : (Resolver.ofTree cwd source image outside).outside = none) (calls : List Call)
    (hall : ∀ a ∈ ((Resolver.ofTree cwd source image outside).after d cwd calls).1,
      isAnswer a = true)
    (hplain : (treeOf d cwd source).Plain (normalize object)) :
    let t := treeOf d cwd source
    let before := ((Resolver.ofTree cwd source image outside).after d cwd calls).2
    ∀ b, (before.ask d cwd object).1 = .ok b →
      (before.ask d cwd object).2.isAmbiguous object = false →
      ∀ c, Chain t.Listed (normalize object) c → isTop c = true →
        b = binaryAt (absolute cwd.text source) ⟨absolute cwd.text image, true⟩ c := by
  intro t before b hv ha
  have ht : t.IsProper := ⟨hd, hc, isAbsolute_absolute hc source⟩
  have hstart : Candid t ⟨absolute cwd.text image, true⟩
      (Resolver.ofTree cwd source image outside) :=
    ⟨(ofTree_learned hout).toSteady, hout, rfl, nofun⟩
  have hbefore : Candid t ⟨absolute cwd.text image, true⟩ before :=
    Search.after_keeps_of (fun call r hr => call_candid ht hr call) hstart calls hall
  exact (owner_candid ht hbefore object []).2 b hv ha hplain

end Resolvers

namespace Sample

/-- One object goes into two modules, one of them in its own directory. -/
def apart : Disk := ⟨[(["w"], .dir), (["w", "l"], .dir), (["w", "l", "a"], .dir),
  (["w", "l", "b"], .dir), (["w", "l", "a", ".m.ko.cmd"], file "cmd_m := a/x.o"),
  (["w", "l", "b", ".n.ko.cmd"], file "cmd_n := a/x.o")], 1⟩

theorem gathered_parent {a p : String} (h : (treeOf gathered ["w"] "l").Told a p) :
    p = "k/built-in.a" := by
  obtain ⟨q, hq, he⟩ := h
  have hmem : (⟨a, p⟩ : Edge) ∈ gathered.nodes.flatMap
      (fun q => ((treeOf gathered ["w"] "l").told q.1).edges) := List.mem_flatMap.2 ⟨q, hq, he⟩
  rw [gathered_told] at hmem
  rcases List.mem_cons.1 hmem with heq | hmem
  · exact (Edge.mk.inj heq).2
  · exact (Edge.mk.inj (List.mem_singleton.1 hmem)).2

theorem gathered_listed {a p : String} (h : (treeOf gathered ["w"] "l").Listed a p) :
    p = "k/built-in.a" := by
  have hs : (treeOf gathered ["w"] "l").whole.stop = none := by decide +kernel
  exact gathered_parent (whole_told gathered_proper (whole_complete hs h)).1

theorem gathered_plain (object : String) : (treeOf gathered ["w"] "l").Plain object := by
  intro n _ _ dir _ p hp _ _ q hq
  rw [gathered_parent hp, gathered_listed hq]

end Sample

theorem owner_sole_gathered :
    Chain (treeOf Sample.gathered ["w"] "l").Listed (normalize "k/cpu/intel.o") "k/built-in.a" ∧
      ⟨"/w/l/vmlinux", true⟩ = binaryAt (absolute (Place.text ["w"]) "l")
        ⟨absolute (Place.text ["w"]) "l/vmlinux", true⟩ "k/built-in.a" := by
  have howner := Sample.gathered_owner
  have hclear : ((Sample.fresh.after Sample.gathered ["w"] Sample.calls).2.ask Sample.gathered ["w"]
      "k/cpu/intel.o").2.isAmbiguous "k/cpu/intel.o" = false := by decide +kernel
  have hall := Sample.gathered_answered
  have hchain : Chain (treeOf Sample.gathered ["w"] "l").Listed (normalize "k/cpu/intel.o")
      "k/built-in.a" := by
    refine .single ⟨by decide +kernel, ["k"], ".built-in.a.cmd", ?_⟩
    exact ⟨by decide, ⟨⟨by decide, by decide, by decide⟩, by decide⟩, by decide, by decide +kernel⟩
  rw [Sample.fresh] at howner hclear hall
  exact ⟨hchain, owner_sole Sample.gathered_proper.disk Sample.gathered_proper.cwd rfl Sample.calls
    hall (Sample.gathered_plain _) _ howner hclear _ hchain (by decide +kernel)⟩

/-- An object that goes into a module in its own directory and into another one elsewhere is taken for
an object of the first alone. -/
theorem owner_apart :
    (Sample.fresh.ask Sample.apart ["w"] "a/x.o").1 = .ok ⟨"/w/l/a/m.ko", false⟩ ∧
      (Sample.fresh.ask Sample.apart ["w"] "a/x.o").2.isAmbiguous "a/x.o" = false ∧
      Chain (treeOf Sample.apart ["w"] "l").Listed "a/x.o" "b/n.ko" ∧ isTop "b/n.ko" = true ∧
      binaryAt "/w/l" ⟨"/w/l/vmlinux", true⟩ "b/n.ko" = ⟨"/w/l/b/n.ko", false⟩ := by
  refine ⟨by decide +kernel, by decide +kernel, .single ⟨by decide +kernel, ["b"], ".n.ko.cmd", ?_⟩,
    by decide +kernel, by decide +kernel⟩
  exact ⟨by decide, ⟨⟨by decide, by decide, by decide⟩, by decide⟩, by decide, by decide +kernel⟩

end Hotpatch.Kbuild
