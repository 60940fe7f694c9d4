import Hotpatch.Proofs.Kbuild.Calls

/-! What the outcomes of a search for an owner mean. Whatever was asked before, an owner stands at the
end of a chain of recorded parents, an object called ambiguous has a fork on such a chain, and a
cycle that is reported is there. That an object has no parents can only be told by a resolver whose
calls were all answered. -/

namespace Hotpatch.Kbuild

namespace Tree

/-- What an outcome of a search for the owner of an object says about the tree. What it says about
missing parents holds if `all`. -/
inductive Meant (t : Tree) (image : Binary) (object : String) (all : Prop) :
    Except Fault Binary → Prop
  | owner {c} : Chain t.Links object c → isTop c = true →
      Meant t image object all (.ok (binaryAt t.source image c))
  | cycle {c} : Chain t.Links object c → isTop c = false → Relation.TransGen t.Links c c →
      Meant t image object all (.error (.failure (.unresolved object ("dependency cycle at " ++ c))))
  | lost {c} : Chain t.Links object c → isTop c = false → (all → ∀ p, ¬ t.Listed c p) →
      Meant t image object all (.error (.failure (.unresolved object ("invalid ancestor " ++ c))))
  | broken e : Meant t image object all (.error (.ofDisk e))

/-- Something on a chain from an object has two parents. -/
def Forks (t : Tree) (object : String) : Prop :=
  ∃ n p q, Chain t.Links object n ∧ isTop n = false ∧ p ≠ q ∧ t.Links n p ∧ t.Links n q

theorem Meant.imp {t : Tree} {image : Binary} {object : String} {all all' : Prop}
    {v : Except Fault Binary} (h : t.Meant image object all v) (hall : all' → all) :
    t.Meant image object all' v := by
  cases h with
  | owner hchain htop => exact .owner hchain htop
  | cycle hchain htop hcycle => exact .cycle hchain htop hcycle
  | lost hchain htop hnone => exact .lost hchain htop fun ha => hnone (hall ha)
  | broken e => exact .broken e

end Tree

theorem Tree.Told.mem_targets {t : Tree} {a b : String} (h : t.Told a b) : b ∈ t.targets := by
  obtain ⟨q, hq, he⟩ := h
  obtain ⟨target, text, htarget, -, -, he⟩ := Contribution.edge_of_record he
  refine List.mem_map.2 ⟨q, hq, ?_⟩
  rw [htarget]
  exact (Contribution.made_target he).symm

theorem Held.choose {t : Tree} {r : Resolver} (h : Held t r) (object p : String)
    (ps : List String) : Held t (r.choose object p ps) :=
  ⟨h.source, h.near, h.nodup, h.told, h.tree, h.last⟩

theorem Held.keep {t : Tree} {r : Resolver} (h : Held t r) (object : String) (b : Binary) :
    Held t (r.keep object b) :=
  ⟨h.source, h.near, h.nodup, h.told, h.tree, h.last⟩

namespace Search

variable {t : Tree} {r r' : Resolver} {object current : String} {n : Nat} {met : List String}
  {v : Except Fault Binary}

/-- A way up leaves a resolver that holds nothing but records, whatever it ends in. -/
theorem Ascent.held (ht : t.IsProper) (h : Ascent t object n r met current v r') (hr : Held t r) :
    Held t r' := by
  induction h with
  | spent | top | cycle => exact hr
  | broken _ _ hlook | lost _ _ hlook => exact (hlook.ends (parents_offers ht hr _)).held
  | up _ _ hlook _ ih => exact ih ((hlook.ends (parents_offers ht hr _)).held.choose object _ _)

/-- What a way up that started inside the tree says about it. -/
theorem Ascent.meant (ht : t.IsProper) (h : Ascent t object n r met current v r') (hr : Held t r)
    (hample : Ample t object n met current) (hin : IsInner current)
    (hchain : Chain t.Links object current) (hmet : ∀ m ∈ met, Relation.TransGen t.Links m current) :
    t.Meant r.image object (Steady t r) v ∧
      (r'.chosen object = true → r.chosen object = true ∨ t.Forks object) := by
  induction h with
  | spent => exact absurd rfl hample.pos
  | @top n r met current htop =>
    rw [hr.source]
    exact ⟨.owner hchain htop, .inl⟩
  | cycle htop hm => exact ⟨.cycle hchain htop (hmet _ hm), .inl⟩
  | @broken n r met current e r' htop hm hlook =>
    have hg := hlook.ends (parents_glance t r current)
    obtain ⟨e', rfl⟩ := hg.broken e rfl
    refine ⟨.broken e', fun hc => .inl ?_⟩
    rwa [hg.beside.chosen] at hc
  | @lost n r met current r' htop hm hlook =>
    refine ⟨.lost hchain htop fun hs => ?_, fun hc => .inl ?_⟩
    · exact (hlook.ends (parents_reasoned ht hs current) [] rfl).2.none hin.normal
    · rwa [(hlook.ends (parents_glance t r current)).beside.chosen] at hc
  | @up n r met current p ps r₁ v r' htop hm hlook _ ih =>
    have hf := hlook.ends (parents_offers ht hr current)
    have hb := (hlook.ends (parents_glance t r current)).beside
    have hlinks : ∀ q ∈ p :: ps, t.Links current q ∧ IsInner q := by
      intro q hq
      obtain ⟨htold, hkin⟩ := hf.told _ rfl q hq
      rw [hin.normal] at htold
      exact ⟨htold.links ht (hkin hin), hkin hin⟩
    obtain ⟨hlink, hinner⟩ := hlinks p List.mem_cons_self
    have hloop : ∀ m ∈ current :: met, Relation.TransGen t.Links m p := by
      intro m hmem
      rcases List.mem_cons.1 hmem with rfl | hmem
      · exact .single hlink
      · exact (hmet m hmem).tail hlink
    obtain ⟨hmeant, hforks⟩ := ih (hf.held.choose object p ps)
      (hample.up hm hlink.told.mem_targets) hinner (hchain.tail ⟨htop, hlink⟩) hloop
    rw [show (r₁.choose object p ps).image = r.image from hb.image] at hmeant
    refine ⟨hmeant.imp fun hs => ?_, fun hc => ?_⟩
    · exact (hlook.ends (parents_reasoned ht hs current) _ rfl).1.choose object p ps
    · rcases hforks hc with hc | hforks
      · rw [Resolver.chosen_choose, hb.chosen] at hc
        cases ps with
        | nil => exact .inl (by simpa using hc)
        | cons q qs =>
          have hne : p ≠ q := by
            rintro rfl
            exact (List.nodup_cons.1 (hf.nodup _ rfl)).1 List.mem_cons_self
          exact .inr ⟨current, p, q, hchain, htop, hne, hlink, (hlinks q (by simp)).1⟩
      · exact .inr hforks

end Search

/-- What a resolver holds, and what it once told, is grounded in the tree. -/
structure Grounded (t : Tree) (image : Binary) (r : Resolver) : Prop extends Held t r where
  inside : r.outside = none
  linked : r.image = image
  known : ∀ object b, r.known.lookup object = some b → IsInner object →
    ∃ c, Chain t.Links object c ∧ isTop c = true ∧ b = binaryAt t.source image c
  forked : ∀ object, r.chosen object = true → IsInner object → t.Forks object

section Calls

variable {t : Tree} {image : Binary} {r r' : Resolver} {object : String}

theorem Grounded.beside (h : Grounded t image r) (hb : Beside r r') (hr' : Held t r') :
    Grounded t image r' := by
  refine ⟨hr', hb.outside.trans h.inside, hb.image.trans h.linked, fun x b hx => ?_, fun x hx => ?_⟩
  · exact h.known x b (by rwa [← hb.known])
  · exact h.forked x (by rwa [← hb.chosen])

/-- A way up from an object leaves what was told grounded, whatever it ends in. -/
theorem Grounded.passed {v : Except Fault Binary} (ht : t.IsProper) (h : Grounded t image r)
    (hasc : Search.Ascent t object (Search.height t.disk r) r [] object v r') :
    Grounded t image r' ∧ (IsInner object → t.Meant image object (Steady t r) v) := by
  have hp := hasc.passed
  have hmeant := fun hin => hasc.meant ht h.toHeld (ample_height t r object) hin .refl nofun
  refine ⟨⟨hasc.held ht h.toHeld, hp.outside.trans h.inside, hp.image.trans h.linked, fun x b hx => ?_,
    fun x hx hin => ?_⟩, fun hin => h.linked ▸ (hmeant hin).1⟩
  · exact h.known x b (by rwa [← hp.known])
  · by_cases heq : x = object
    · rw [heq] at hx hin ⊢
      exact ((hmeant hin).2 hx).elim (fun hc => h.forked object hc hin) id
    · exact h.forked x (by rwa [← hp.others x heq]) hin

theorem Grounded.keep {b : Binary} (h : Grounded t image r)
    (hb : IsInner object → ∃ c, Chain t.Links object c ∧ isTop c = true ∧
      b = binaryAt t.source image c) :
    Grounded t image (r.keep object b) := by
  refine ⟨h.toHeld.keep object b, h.inside, h.linked, fun x b' hx hin => ?_, h.forked⟩
  rcases Resolver.lookup_keep hx with ⟨rfl, rfl⟩ | hx
  · exact hb hin
  · exact h.known x b' hx hin

/-- An owner that is told stands at the end of a chain. -/
theorem Tree.Meant.chain {all : Prop} {b : Binary} (h : t.Meant image object all (.ok b)) :
    ∃ c, Chain t.Links object c ∧ isTop c = true ∧ b = binaryAt t.source image c := by
  cases h with
  | owner hchain htop => exact ⟨_, hchain, htop, rfl⟩

theorem owner_grounded (ht : t.IsProper) (h : Grounded t image r) (object : String) :
    Search.Ends t r (Search.owner object) fun v r' => Grounded t image r' ∧
      (IsInner (normalize object) → t.Meant image (normalize object) (Steady t r) v) := by
  refine (Search.owner_owned t r object).imp fun v r' howned => ?_
  generalize normalize object = object at howned ⊢
  cases howned with
  | outside hout => exact nomatch hout.symm.trans h.inside
  | @known b _ hk =>
    refine ⟨h, fun hin => ?_⟩
    obtain ⟨c, hchain, htop, rfl⟩ := h.known object b hk hin
    exact .owner hchain htop
  | found _ _ hasc =>
    obtain ⟨hr', hmeant⟩ := h.passed ht hasc
    exact ⟨hr'.keep fun hin => (hmeant hin).chain, hmeant⟩
  | failed _ _ hasc => exact h.passed ht hasc

/-- No call shakes the ground. -/
theorem call_grounded (ht : t.IsProper) (h : Grounded t image r) (call : Call) :
    Search.Ends t r call.search fun _ r' => Grounded t image r' :=
  Search.call_ends (fun object => (owner_grounded ht h object).imp fun _ _ hg => hg.1)
    (fun dir object => (Search.parentsIn_offers ht h.toHeld dir object).imp
      fun _ _ hf hg => h.beside hg.beside hf.held)
    (fun object => (Search.broadParents_offers ht h.toHeld object).imp
      fun _ _ hf hg => h.beside hg.beside hf.held) call

theorem isAnswer_map {α : Type} (v : Except Fault α) :
    isAnswer (v.map fun _ => ()) = isAnswer v := by
  cases v <;> rfl

theorem owner_steady (ht : t.IsProper) (h : Steady t r) (object : String) :
    Search.Ends t r (Search.owner object) fun v r' => isAnswer v = true → Steady t r' := by
  refine (Search.owner_owned t r object).imp fun v r' howned hv => ?_
  cases howned with
  | outside => exact h
  | known => exact h
  | found _ _ hasc =>
    exact ((hasc.climbed ht h).steady rfl).keep _ _
  | failed _ _ hasc => exact (hasc.climbed ht h).steady hv

/-- A call that is answered leaves a resolver that knows rightly. -/
theorem call_steady (ht : t.IsProper) (h : Steady t r) (call : Call) :
    Search.Ends t r call.search fun v r' => isAnswer v = true → Steady t r' :=
  Search.call_ends (fun object => (owner_steady ht h object).imp fun v _ hs => isAnswer_map v ▸ hs)
    (fun dir object => (Search.parentsIn_ends h dir object).imp
      fun v _ hf hg => isAnswer_map v ▸ hg.answered hf.steady)
    (fun object => (Search.broadParents_ends ht h object).imp
      fun v _ hf hg => isAnswer_map v ▸ hg.answered hf.steady) call

end Calls

namespace Tree.Meant

variable {t : Tree} {image : Binary} {object c : String} {all : Prop}

theorem lost_ne_cycle (c c' : String) : "invalid ancestor " ++ c ≠ "dependency cycle at " ++ c' := by
  intro h
  have hhead := congrArg (fun s => s.toList.head?) h
  simp at hhead

theorem unresolved_ne_disk (cause : String) (e : DiskError) :
    (.error (.failure (.unresolved object cause)) : Except Fault Binary) ≠ .error (.ofDisk e) := by
  intro h
  have := congrArg isAnswer h
  rw [isAnswer_ofDisk] at this
  cases this

theorem of_lost (h : t.Meant image object all
    (.error (.failure (.unresolved object ("invalid ancestor " ++ c))))) :
    Chain t.Links object c ∧ isTop c = false ∧ (all → ∀ p, ¬ t.Listed c p) := by
  generalize hv : (.error (.failure (.unresolved object ("invalid ancestor " ++ c))) :
    Except Fault Binary) = v at h
  cases h with
  | owner => cases hv
  | cycle =>
    injection hv with hv
    injection hv with hv
    injection hv with _ hv
    exact absurd hv (lost_ne_cycle _ _)
  | lost hchain htop hnone =>
    injection hv with hv
    injection hv with hv
    injection hv with _ hv
    obtain rfl := (String.append_right_inj _).1 hv
    exact ⟨hchain, htop, hnone⟩
  | broken e => exact absurd hv (unresolved_ne_disk _ e)

theorem of_cycle (h : t.Meant image object all
    (.error (.failure (.unresolved object ("dependency cycle at " ++ c))))) :
    Chain t.Links object c ∧ isTop c = false ∧ Relation.TransGen t.Links c c := by
  generalize hv : (.error (.failure (.unresolved object ("dependency cycle at " ++ c))) :
    Except Fault Binary) = v at h
  cases h with
  | owner => cases hv
  | cycle hchain htop hcycle =>
    injection hv with hv
    injection hv with hv
    injection hv with _ hv
    obtain rfl := (String.append_right_inj _).1 hv
    exact ⟨hchain, htop, hcycle⟩
  | lost =>
    injection hv with hv
    injection hv with hv
    injection hv with _ hv
    exact absurd hv.symm (lost_ne_cycle _ _)
  | broken e => exact absurd hv (unresolved_ne_disk _ e)

end Tree.Meant

section Resolvers

variable {d : Disk} {cwd : Place} {source image : String} {outside : Option String}
  {object : String}

/-- Every outcome of a search for the owner of an object inside the tree means what it says, whatever
was asked before; that an object has no parents, if every call before was answered. -/
theorem owner_meant (hd : d.IsProper) (hc : cwd.IsProper)
    (hout : (Resolver.ofTree cwd source image outside).outside = none) (calls : List Call)
    (ho : IsInner object) :
    let t := treeOf d cwd source
    let before := (Resolver.ofTree cwd source image outside).after d cwd calls
    let v := (before.2.ask d cwd object).1
    let r := (before.2.ask d cwd object).2
    (∀ b, v = .ok b → ∃ c, Chain t.Links object c ∧ isTop c = true ∧
        b = binaryAt (absolute cwd.text source) ⟨absolute cwd.text image, true⟩ c) ∧
      (∀ c, v = .error (.failure (.unresolved object ("invalid ancestor " ++ c))) →
        Chain t.Links object c ∧ isTop c = false ∧
          ((∀ a ∈ before.1, isAnswer a = true) → ∀ p, ¬ t.Listed c p)) ∧
      (∀ c, v = .error (.failure (.unresolved object ("dependency cycle at " ++ c))) →
        Chain t.Links object c ∧ isTop c = false ∧ Relation.TransGen t.Links c c) ∧
      (r.isAmbiguous object = true → t.Forks object) := by
  intro t before v r
  have ht : t.IsProper := ⟨hd, hc, isAbsolute_absolute hc source⟩
  have hstart : Grounded t ⟨absolute cwd.text image, true⟩
      (Resolver.ofTree cwd source image outside) :=
    ⟨ofTree_held, hout, rfl, nofun, nofun⟩
  have hbefore : Grounded t ⟨absolute cwd.text image, true⟩ before.2 :=
    Search.after_keeps (fun call r hr => call_grounded ht hr call) hstart calls
  have hsteady : (∀ a ∈ before.1, isAnswer a = true) → Steady t before.2 :=
    Search.after_keeps_of (fun call r hr => call_steady ht hr call)
      (ofTree_learned hout).toSteady calls
  have hends := owner_grounded ht hbefore object []
  rw [ho.normal] at hends
  have hr : Grounded t ⟨absolute cwd.text image, true⟩ r := hends.1
  have hmeant : t.Meant ⟨absolute cwd.text image, true⟩ object (Steady t before.2) v := hends.2 ho
  refine ⟨fun b hv => (hv ▸ hmeant).chain, fun c hv => ?_, fun c hv => (hv ▸ hmeant).of_cycle,
    fun ha => ?_⟩
  · obtain ⟨hchain, htop, hnone⟩ := (hv ▸ hmeant).of_lost
    exact ⟨hchain, htop, fun hall => hnone (hsteady hall)⟩
  · rw [Resolver.isAmbiguous_eq, ho.normal] at ha
    exact hr.forked object ha ho

end Resolvers

namespace Sample

def calls : List Call := [.near "../x.o", .owner "k/other.o", .broad "k/cpu/amd.o"]

theorem inner_gathered : IsInner "k/cpu/intel.o" ∧ IsInner "k/none.o" :=
  ⟨⟨["k", "cpu", "intel.o"], by decide, by decide, by decide⟩,
    ⟨["k", "none.o"], by decide, by decide, by decide⟩⟩

theorem gathered_answered : ∀ a ∈ (fresh.after gathered ["w"] calls).1, isAnswer a = true := by
  decide +kernel

theorem gathered_owner : ((fresh.after gathered ["w"] calls).2.ask gathered ["w"]
    "k/cpu/intel.o").1 = .ok ⟨"/w/l/vmlinux", true⟩ := by
  decide +kernel

end Sample

theorem owner_meant_gathered :
    (∃ c, Chain (treeOf Sample.gathered ["w"] "l").Links "k/cpu/intel.o" c ∧ isTop c = true ∧
      ⟨"/w/l/vmlinux", true⟩ = binaryAt (absolute (Place.text ["w"]) "l")
        ⟨absolute (Place.text ["w"]) "l/vmlinux", true⟩ c) ∧
    ∀ p, ¬ (treeOf Sample.gathered ["w"] "l").Listed "k/none.o" p := by
  have howner := Sample.gathered_owner
  have hlost : ((Sample.fresh.after Sample.gathered ["w"] Sample.calls).2.ask Sample.gathered ["w"]
      "k/none.o").1 = .error (.failure (.unresolved "k/none.o" ("invalid ancestor " ++ "k/none.o"))) := by
    decide +kernel
  have hall := Sample.gathered_answered
  have hd := Sample.gathered_proper.disk
  have hc := Sample.gathered_proper.cwd
  rw [Sample.fresh] at howner hlost hall
  exact ⟨(owner_meant hd hc rfl Sample.calls Sample.inner_gathered.1).1 _ howner,
    ((owner_meant hd hc rfl Sample.calls Sample.inner_gathered.2).2.1 _ hlost).2.2 hall⟩

/-- Where the whole tree can't be read, the first search of it fails, and every later one takes the part
that was read for the whole. -/
theorem treeParents_torn {t : Tree} {r : Resolver} {e : DiskError} (h : Held t r)
    (hs : t.whole.stop = some e) (object : String) :
    Search.Ends t r (Search.treeParents object) fun v r' => r'.tree = some t.whole.index ∧
      v = if r.tree = none then .error (.ofDisk e) else .ok (t.whole.index.parents object) := by
  refine (Search.wholeTree_holds h object).bind (fun i r' ⟨_, htree, hi⟩ => ?_)
    fun e' r' ⟨_, htree, he⟩ => ⟨htree, ?_⟩
  · rw [hs] at hi
    by_cases hr : r.tree = none
    · rw [if_pos hr] at hi
      cases hi
    · rw [if_neg hr] at hi ⊢
      obtain rfl := Except.ok.inj hi
      dsimp only
      generalize t.whole.index.parents object = ps
      rcases ps with _ | ⟨p, _ | ⟨q, qs⟩⟩
      · exact .pure ⟨htree, rfl⟩
      · exact .next (.update ⟨rfl, rfl⟩) (.pure ⟨htree, rfl⟩)
      · exact .pure ⟨htree, rfl⟩
  · rw [hs] at he
    by_cases hr : r.tree = none
    · rw [if_pos hr] at he ⊢
      exact congrArg Except.error (Except.error.inj he)
    · rw [if_neg hr] at he
      cases he

end Hotpatch.Kbuild
