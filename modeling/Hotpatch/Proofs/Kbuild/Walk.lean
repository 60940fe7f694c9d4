import Mathlib.Data.List.Dedup
import Hotpatch.Proofs.Kbuild.Outcomes

/-! A search for an owner ends. No object on the way up is looked for twice, and every one but the first
is the target of a record; so there is at most one look more than there are targets, whatever was
asked before, and even where records go round in circles. -/

namespace Hotpatch.Kbuild

namespace Search

section Mute

variable {α β : Type} {t : Tree} {r : Resolver}

/-- Where a search ends doesn't depend on what was noted before it. -/
def Mute (t : Tree) (r : Resolver) (s : Search α) : Prop :=
  ∃ v r', Ends t r s fun w x => w = v ∧ x = r'

theorem Mute.bind {s : Search α} {f : α → Search β} (hs : Mute t r s)
    (hf : ∀ a r', Mute t r' (f a)) : Mute t r (s >>= f) := by
  obtain ⟨v, r', hs⟩ := hs
  cases v with
  | ok a =>
    obtain ⟨w, r'', hf⟩ := hf a r'
    refine ⟨w, r'', hs.bind (fun b x hx => ?_) fun _ _ hx => nomatch hx.1⟩
    obtain ⟨hb, rfl⟩ := hx
    exact Except.ok.inj hb ▸ hf
  | error e =>
    refine ⟨.error e, r', hs.bind (fun _ _ hx => nomatch hx.1) fun e' x hx => ?_⟩
    exact ⟨congrArg Except.error (Except.error.inj hx.1), hx.2⟩

theorem Mute.pure (a : α) : Mute t r (Pure.pure a) := ⟨.ok a, r, .pure ⟨rfl, rfl⟩⟩

theorem Mute.resolver {f : Resolver → Search β} (h : Mute t r (f r)) :
    Mute t r (Search.resolver >>= f) :=
  h

theorem Mute.read {f : Disk × Place → Search β} (h : Mute t r (f (t.disk, t.cwd))) :
    Mute t r (MonadReader.read >>= f) :=
  h

theorem note_mute (level : Log.Level) (text : String) : Mute t r (note level text) :=
  ⟨.ok (), r, .note ⟨rfl, rfl⟩⟩

theorem notes_mute (level : Log.Level) (texts : List String) :
    Mute t r (texts.forM (note level)) :=
  ⟨.ok (), r, .notes ⟨rfl, rfl⟩⟩

theorem update_mute (f : Resolver → Resolver) : Mute t r (update f) :=
  ⟨.ok (), f r, .update ⟨rfl, rfl⟩⟩

theorem goOn_mute (stop : Option DiskError) : Mute t r (goOn stop) :=
  ⟨ended stop (), r, .goOn ⟨rfl, rfl⟩⟩

theorem parentsIn_mute (dir object : String) : Mute t r (parentsIn dir object) := by
  have hnear : Mute t r (lookNear dir) :=
    .read (.resolver ((notes_mute _ _).bind fun _ _ => (update_mute _).bind fun _ _ => goOn_mute _))
  exact hnear.bind fun _ _ => .resolver (.pure _)

theorem wholeTree_mute (object : String) : Mute t r (wholeTree object) := by
  refine .resolver ?_
  rcases r.tree with _ | i
  · refine .read ((note_mute _ _).bind fun _ _ => (update_mute _).bind fun _ _ => ?_)
    exact (goOn_mute _).bind fun _ _ => (note_mute _ _).bind fun _ _ => .pure _
  · exact .pure i

theorem treeParents_mute (object : String) : Mute t r (treeParents object) := by
  refine (wholeTree_mute object).bind fun i r' => ?_
  dsimp only
  generalize i.parents object = ps
  rcases ps with _ | ⟨p, _ | ⟨q, qs⟩⟩
  · exact .pure _
  · exact (update_mute _).bind fun _ _ => .pure _
  · exact .pure _

theorem broadParents_mute (object : String) : Mute t r (broadParents object) := by
  refine .resolver ?_
  rcases r.lastBroadDir with _ | dir
  · exact treeParents_mute object
  · refine (parentsIn_mute dir object).bind fun ps _ => ?_
    cases ps with
    | nil => exact treeParents_mute object
    | cons p ps => exact .pure _

theorem parents_mute (object : String) : Mute t r (parents object) := by
  refine (parentsIn_mute (dirname object) object).bind fun ps _ => ?_
  cases ps with
  | nil => exact broadParents_mute object
  | cons p ps => exact .pure _

/-- A look for the parents of an object can end in one way only. -/
theorem Looks.unique {object : String} {v w : Except Fault (List String)} {r₁ r₂ : Resolver}
    (h₁ : Looks t r object v r₁) (h₂ : Looks t r object w r₂) : v = w ∧ r₁ = r₂ := by
  obtain ⟨u, r', hends⟩ := parents_mute (t := t) (r := r) object
  obtain ⟨hv, hr₁⟩ := h₁.ends hends
  obtain ⟨hw, hr₂⟩ := h₂.ends hends
  exact ⟨hv.trans hw.symm, hr₁.trans hr₂.symm⟩

end Mute

/-- A search for the owner of an object from `current` on that goes on until it ends by itself; `looked`
are those whose parents it looks for, in order. -/
inductive Walk (t : Tree) (object : String) :
    Resolver → List String → String → List String → Except Fault Binary → Resolver → Prop
  | top {r met current} : isTop current = true →
      Walk t object r met current [] (.ok (binaryAt r.source r.image current)) r
  | cycle {r met current} : isTop current = false → current ∈ met →
      Walk t object r met current []
        (.error (.failure (.unresolved object ("dependency cycle at " ++ current)))) r
  | broken {r met current e r'} : isTop current = false → current ∉ met →
      Looks t r current (.error e) r' → Walk t object r met current [current] (.error e) r'
  | lost {r met current r'} : isTop current = false → current ∉ met →
      Looks t r current (.ok []) r' → Walk t object r met current [current]
        (.error (.failure (.unresolved object ("invalid ancestor " ++ current)))) r'
  | up {r met current p ps r₁ looked v r'} : isTop current = false → current ∉ met →
      Looks t r current (.ok (p :: ps)) r₁ →
      Walk t object (r₁.choose object p ps) (current :: met) p looked v r' →
      Walk t object r met current (current :: looked) v r'

section Walk

variable {t : Tree} {object current : String} {r r' x : Resolver} {met looked : List String}
  {v w : Except Fault Binary} {n : Nat}

/-- A search that has steps enough goes on until it ends by itself. -/
theorem Ascent.walks (ht : t.IsProper) (h : Ascent t object n r met current v r') (hr : Held t r)
    (hample : Ample t object n met current) : ∃ looked, Walk t object r met current looked v r' := by
  induction h with
  | spent => exact absurd rfl hample.pos
  | top htop => exact ⟨_, .top htop⟩
  | cycle htop hm => exact ⟨_, .cycle htop hm⟩
  | broken htop hm hlook => exact ⟨_, .broken htop hm hlook⟩
  | lost htop hm hlook => exact ⟨_, .lost htop hm hlook⟩
  | @up n r met current p ps r₁ v r' htop hm hlook _ ih =>
    have hf := hlook.ends (parents_offers ht hr current)
    have htold := (hf.told _ rfl p List.mem_cons_self).1
    obtain ⟨looked, hwalk⟩ := ih (hf.held.choose object p ps) (hample.up hm htold.mem_targets)
    exact ⟨_, .up htop hm hlook hwalk⟩

/-- With more steps than there are looks to take, every search ends as the walk does. -/
theorem Walk.ascent (h : Walk t object r met current looked v r')
    (hasc : Ascent t object n r met current w x) (hn : looked.length < n) : w = v ∧ x = r' := by
  induction h generalizing n with
  | top htop =>
    cases hasc with
    | spent => cases hn
    | top => exact ⟨rfl, rfl⟩
    | cycle hlow | broken hlow | lost hlow | up hlow => exact nomatch htop.symm.trans hlow
  | cycle htop hm =>
    cases hasc with
    | spent => cases hn
    | top hhigh => exact nomatch htop.symm.trans hhigh
    | cycle => exact ⟨rfl, rfl⟩
    | broken _ hnew | lost _ hnew | up _ hnew => exact absurd hm hnew
  | broken htop hm hlook =>
    cases hasc with
    | spent => cases hn
    | top hhigh => exact nomatch htop.symm.trans hhigh
    | cycle _ hold => exact absurd hold hm
    | broken _ _ hlook' =>
      obtain ⟨he, hr⟩ := hlook.unique hlook'
      cases he
      exact ⟨rfl, hr.symm⟩
    | lost _ _ hlook' | up _ _ hlook' => exact nomatch (hlook.unique hlook').1
  | lost htop hm hlook =>
    cases hasc with
    | spent => cases hn
    | top hhigh => exact nomatch htop.symm.trans hhigh
    | cycle _ hold => exact absurd hold hm
    | lost _ _ hlook' => exact ⟨rfl, (hlook.unique hlook').2.symm⟩
    | broken _ _ hlook' | up _ _ hlook' => exact nomatch (hlook.unique hlook').1
  | up htop hm hlook _ ih =>
    cases hasc with
    | spent => cases hn
    | top hhigh => exact nomatch htop.symm.trans hhigh
    | cycle _ hold => exact absurd hold hm
    | broken _ _ hlook' | lost _ _ hlook' => exact nomatch (hlook.unique hlook').1
    | up _ _ hlook' hrest =>
      obtain ⟨hps, hr⟩ := hlook.unique hlook'
      cases hps
      cases hr
      exact ih hrest (Nat.lt_of_succ_lt_succ hn)

/-- No object is looked for that was passed before, and none twice. -/
theorem Walk.nodup (h : Walk t object r met current looked v r') :
    looked.Nodup ∧ ∀ m ∈ looked, m ∉ met := by
  induction h with
  | top | cycle => exact ⟨List.nodup_nil, nofun⟩
  | broken _ hm | lost _ hm =>
    exact ⟨List.nodup_singleton _, fun m hmem => List.mem_singleton.1 hmem ▸ hm⟩
  | up _ hm _ _ ih =>
    obtain ⟨hnodup, hnew⟩ := ih
    refine ⟨List.nodup_cons.2 ⟨fun hmem => hnew _ hmem List.mem_cons_self, hnodup⟩, ?_⟩
    intro m hmem
    rcases List.mem_cons.1 hmem with rfl | hmem
    · exact hm
    · exact fun hold => hnew m hmem (List.mem_cons_of_mem _ hold)

/-- Every object that is looked for, but the first, is recorded as a target; on the way up from
something inside the tree, as one inside it. -/
theorem Walk.told (ht : t.IsProper) (h : Walk t object r met current looked v r') (hr : Held t r) :
    ∀ m ∈ looked, m = current ∨ (∃ a, t.Told a m) ∧ (IsInner current → IsInner m) := by
  induction h with
  | top | cycle => nofun
  | broken | lost => exact fun m hmem => .inl (List.mem_singleton.1 hmem)
  | @up r met current p ps r₁ looked v r' _ _ hlook _ ih =>
    have hf := hlook.ends (parents_offers ht hr current)
    obtain ⟨htold, hkin⟩ := hf.told _ rfl p List.mem_cons_self
    intro m hmem
    rcases List.mem_cons.1 hmem with rfl | hmem
    · exact .inl rfl
    · rcases ih (hf.held.choose object p ps) m hmem with rfl | ⟨htarget, hinner⟩
      · exact .inr ⟨⟨_, htold⟩, hkin⟩
      · exact .inr ⟨htarget, fun hin => hinner (hkin hin)⟩

end Walk

end Search

namespace Tree

variable {t : Tree} {b : String}

/-- The targets of what the records below a place say, each once. -/
def recorded (t : Tree) (top : Place) : List String :=
  ((t.disk.nodes.filter fun q => top.isPrefixOf q.1).flatMap fun q =>
    (t.told q.1).edges.map Edge.target).dedup

theorem mem_recorded {top : Place} : b ∈ t.recorded top ↔
    ∃ a, ∃ q ∈ t.disk.nodes, top <+: q.1 ∧ ⟨a, b⟩ ∈ (t.told q.1).edges := by
  rw [recorded, List.mem_dedup, List.mem_flatMap]
  constructor
  · rintro ⟨q, hq, hb⟩
    obtain ⟨hq, htop⟩ := List.mem_filter.1 hq
    obtain ⟨⟨a, _⟩, he, rfl⟩ := List.mem_map.1 hb
    exact ⟨a, q, hq, List.isPrefixOf_iff_prefix.1 htop, he⟩
  · rintro ⟨a, q, hq, htop, he⟩
    refine ⟨q, List.mem_filter.2 ⟨hq, List.isPrefixOf_iff_prefix.2 htop⟩, ?_⟩
    exact List.mem_map.2 ⟨_, he, rfl⟩

theorem Told.recorded {a : String} (h : t.Told a b) : b ∈ t.recorded [] := by
  obtain ⟨q, hq, he⟩ := h
  exact mem_recorded.2 ⟨a, q, hq, List.nil_prefix, he⟩

theorem Links.recorded {a : String} (h : t.Links a b) : b ∈ t.recorded t.root := by
  obtain ⟨q, hq, htop, he⟩ := h
  exact mem_recorded.2 ⟨a, q, hq, htop, he⟩

end Tree

section Bound

variable {t : Tree} {object current : String} {r r' : Resolver} {met looked all : List String}
  {v : Except Fault Binary}

theorem Search.Walk.length_le (h : Search.Walk t object r met current looked v r')
    (hall : ∀ m ∈ looked, m = current ∨ m ∈ all) : looked.length ≤ all.length + 1 := by
  have hsub : looked ⊆ current :: all := fun m hm => List.mem_cons.2 (hall m hm)
  exact h.nodup.1.length_le_of_subset hsub

/-- There is at most one look more than there are targets in the whole file tree; on the way up from
something inside the source tree, than there are targets in this one. -/
theorem Search.Walk.bounded (ht : t.IsProper)
    (h : Search.Walk t object r met current looked v r') (hr : Held t r) :
    looked.length ≤ (t.recorded []).length + 1 ∧
      (IsInner current → looked.length ≤ (t.recorded t.root).length + 1) := by
  have htold := h.told ht hr
  refine ⟨h.length_le fun m hm => ?_, fun hin => h.length_le fun m hm => ?_⟩
  · exact (htold m hm).imp_right fun ⟨⟨_, hm⟩, _⟩ => hm.recorded
  · exact (htold m hm).imp_right fun ⟨⟨_, hm⟩, hkin⟩ => (hm.links ht (hkin hin)).recorded

theorem owner_held (ht : t.IsProper) (hr : Held t r) (object : String) :
    Search.Ends t r (Search.owner object) fun _ r' => Held t r' := by
  refine (Search.owner_owned t r object).imp fun v r' howned => ?_
  cases howned with
  | outside | known => exact hr
  | found _ _ hasc =>
    exact (hasc.held ht hr).keep _ _
  | failed _ _ hasc => exact hasc.held ht hr

/-- Whatever is asked, and however it ends, a resolver holds nothing but what is recorded. -/
theorem call_held (ht : t.IsProper) (hr : Held t r) (call : Call) :
    Search.Ends t r call.search fun _ r' => Held t r' :=
  Search.call_ends (owner_held ht hr)
    (fun dir object => (Search.parentsIn_offers ht hr dir object).imp fun _ _ hf _ => hf.held)
    (fun object => (Search.broadParents_offers ht hr object).imp fun _ _ hf _ => hf.held) call

theorem after_held {d : Disk} {cwd : Place} {source image : String} {outside : Option String}
    (ht : (treeOf d cwd source).IsProper) (calls : List Call) :
    Held (treeOf d cwd source) ((Resolver.ofTree cwd source image outside).after d cwd calls).2 :=
  Search.after_keeps (fun call _ hr => call_held ht hr call) ofTree_held calls

end Bound

section Resolvers

variable {d : Disk} {cwd : Place} {source image : String} {outside : Option String}

/-- Whatever was asked before, a search for an owner comes to an end that doesn't depend on how many
steps it is given, as long as these are more than its looks; it looks for no object twice, and at
most once more than there are targets. -/
theorem owner_walks (hd : d.IsProper) (hc : cwd.IsProper) (calls : List Call) (object : String) :
    let t := treeOf d cwd source
    let r := ((Resolver.ofTree cwd source image outside).after d cwd calls).2
    let start := normalize object
    ∃ looked v r', Search.Walk t start r [] start looked v r' ∧ looked.Nodup ∧
      looked.length ≤ (t.recorded []).length + 1 ∧
      (IsInner start → looked.length ≤ (t.recorded t.root).length + 1) ∧
      (∀ n, looked.length < n →
        Search.Ends t r (Search.climb start n [] start) fun w x => w = v ∧ x = r') ∧
      looked.length < Search.height d r := by
  intro t r start
  have ht : t.IsProper := ⟨hd, hc, isAbsolute_absolute hc source⟩
  have hr : Held t r := after_held ht calls
  have hasc := Search.climb_ascent t start (Search.height d r) r [] start []
  obtain ⟨looked, hwalk⟩ := hasc.walks ht hr (ample_height t r start)
  obtain ⟨hall, hinner⟩ := hwalk.bounded ht hr
  refine ⟨looked, _, _, hwalk, hwalk.nodup.1, hall, hinner, fun n hn => ?_, ?_⟩
  · exact (Search.climb_ascent t start n r [] start).imp fun w x h => hwalk.ascent h hn
  · have hsub : t.recorded [] ⊆ t.targets := by
      intro b hb
      obtain ⟨a, q, hq, -, he⟩ := Tree.mem_recorded.1 hb
      exact Tree.Told.mem_targets ⟨q, hq, he⟩
    have hnodup : (t.recorded []).Nodup := List.nodup_dedup _
    have hle := hnodup.length_le_of_subset hsub
    have hlen : t.targets.length = d.nodes.length := List.length_map _
    rw [Search.height]
    omega

end Resolvers

namespace Sample

/-- Two archives that list each other, and each itself. -/
def looped : Disk := ⟨[(["w"], .dir), (["w", "l"], .dir), (["w", "l", "a"], .dir),
  (["w", "l", "a", ".x.o.cmd"], file "cmd_x := ld x.o y.o c/z.o"),
  (["w", "l", "a", ".y.o.cmd"], file "cmd_y := ld x.o y.o")], 1⟩

end Sample

/-- Three looks where two targets are recorded. -/
theorem owner_walks_looped :
    ∃ looked v r', Search.Walk (treeOf Sample.looped ["w"] "l") "c/z.o"
        (Sample.fresh.after Sample.looped ["w"] [.owner "a/x.o", .broad "c/z.o"]).2 [] "c/z.o"
        looked v r' ∧
      looked.Nodup ∧ looked.length ≤ 3 ∧
      v = .error (.failure (.unresolved "c/z.o" ("dependency cycle at " ++ "a/x.o"))) := by
  have hproper : (treeOf Sample.looped ["w"] "l").IsProper := by decide +kernel
  have hstart : normalize "c/z.o" = "c/z.o" := by decide +kernel
  have hcount : ((treeOf Sample.looped ["w"] "l").recorded []).length = 2 := by decide +kernel
  obtain ⟨looked, v, r', hwalk, hnodup, hall, -, hends, -⟩ :=
    @owner_walks Sample.looped ["w"] "l" "l/vmlinux" none hproper.disk hproper.cwd
      [.owner "a/x.o", .broad "c/z.o"] "c/z.o"
  rw [hstart] at hwalk hends
  rw [hcount] at hall
  refine ⟨looked, v, r', hwalk, hnodup, hall, ?_⟩
  have hv := (hends 4 (by omega) []).1
  rw [← hv]
  decide +kernel

end Hotpatch.Kbuild
