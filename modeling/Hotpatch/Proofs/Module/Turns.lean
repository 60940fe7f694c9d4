import Hotpatch.Proofs.Logged
import Hotpatch.Proofs.Module.Assembled

/-! The survey of the objects, one turn after the other. At its turn an object is compared exactly if it
is neither excluded nor new and there is an original of it; the tool is started for its own two copies
and for the owner that was found then. -/

namespace Hotpatch

open Act

/-- A tool about to be started, as the log announces it. -/
def Command.announced (argv : List String) (env : List (String × String)) : Act Start := do
  Log.debug Command.source ("Running command: " ++ " ".intercalate argv)
  return ⟨argv, none, .streamed env⟩

theorem Ran.trans {t u v : Site} {xs ys : List (Start × Ending)} (hx : Ran t xs u) (hy : Ran u ys v) :
    Ran t (xs ++ ys) v := by
  obtain ⟨new, he, rfl⟩ := hx
  obtain ⟨new', he', rfl⟩ := hy
  refine ⟨new' ++ new, by rw [he', he, List.append_assoc], ?_⟩
  rw [runsOf, runsOf, runsOf, List.filterMap_append, List.reverse_append]

namespace Aggregate

/-- Whether a tree has an original of an object. -/
structure HasOriginal (original : String) (cwd : Place) (d : Disk) (o : ChangedObject) : Prop where
  old : o.isNew = false
  present : ∃ n, d.look? cwd (under original o.path) = .ok (some n)

/-- Whether the tool is to be started for an object, by the tree at its turn. -/
structure IsDue (original : String) (cwd : Place) (d : Disk) (o : ChangedObject) : Prop
    extends HasOriginal original cwd d o where
  included : isExcluded o.path = false

/-- How the tool is started for an object and its owner. -/
def Compares (a : Aggregate) (original patched : String) (o : ChangedObject) (owner : Kbuild.Binary)
    (s : Start) : Prop :=
  ∃ tool env, a.differ.tool.text = .ok tool ∧ a.differ.layout.environment = .ok env ∧
    s = ⟨[tool] ++ (if a.differ.verbose then ["-d"] else []) ++ [under original o.path,
      under patched o.path, owner.path, clean a.symvers, a.symbolName, under a.output o.path],
      none, .streamed env⟩

/-- One turn: what was made of an object, and the tool if it was started. -/
structure Turn (a : Aggregate) (original patched : String) (h : Host) (r : Kbuild.Resolver) (c : Tally)
    (o : ChangedObject) (t : Site) (e : Examined) (x : Option (Start × Ending)) (u : Site) : Prop where
  ran : Ran t x.toList u
  key : e.object.key = o.key
  due : x.isSome = true → IsDue original h.cwd t.disk o
  done : e.fault = none → IsDue original h.cwd t.disk o → x.isSome = true
  started : ∀ y ∈ x, ∃ owner, a.Compares original patched o owner y.1 ∧
    (Kbuild.Search.perform r (Kbuild.Search.owner o.path) h t).1 = .ok (.ok owner, e.resolver)
  tally : e.fault = none → e.tally = c.count (under a.output o.path) e.object

/-- The turns of all objects, up to the first fault. -/
inductive Surveying (a : Aggregate) (original patched : String) (h : Host) : Kbuild.Resolver → Tally →
    List ChangedObject → Site → Survey → List (Start × Ending) → Site → Prop
  | done {r c t} : Surveying a original patched h r c [] t ⟨[], r, c, none⟩ [] t
  | broken {r c o os t e x u f} : a.examine original patched r c o h t = (.ok e, u) →
      Turn a original patched h r c o t e x u → e.fault = some f →
      Surveying a original patched h r c (o :: os) t
        ⟨e.object :: os, e.resolver, e.tally, some f⟩ x.toList u
  | next {r c o os t e x u s runs v} : a.examine original patched r c o h t = (.ok e, u) →
      Turn a original patched h r c o t e x u → e.fault = none →
      Surveying a original patched h e.resolver e.tally os u s runs v →
      Surveying a original patched h r c (o :: os) t
        { s with objects := e.object :: s.objects } (x.toList ++ runs) v

variable {h : Host} {a : Aggregate} {original patched : String} {r : Kbuild.Resolver} {c : Tally}
variable {o : ChangedObject} {owner : Kbuild.Binary} {t u v : Site}

variable {os : List ChangedObject} {s : Survey} {runs : List (Start × Ending)}

theorem Surveying.ran (hs : Surveying a original patched h r c os t s runs u) : Ran t runs u := by
  induction hs with
  | done => exact .refl _
  | broken _ hturn _ => exact hturn.ran
  | next _ hturn _ _ ih => exact hturn.ran.trans ih

/-- Without a fault the files to be linked are those of the objects that are taken, in their order. -/
theorem Surveying.outputs (hs : Surveying a original patched h r c os t s runs u) (hf : s.fault = none) :
    s.tally.outputs =
      c.outputs ++ (s.objects.filter ChangedObject.isTaken).map fun o => under a.output o.path := by
  induction hs with
  | done => simp
  | broken _ _ _ => cases hf
  | @next r c o os t e x u s runs v _ hturn hnone _ ih =>
    have hthis : ([e.object].filter ChangedObject.isTaken).map (fun _ => under a.output o.path) =
        ([e.object].filter ChangedObject.isTaken).map fun o => under a.output o.path := by
      refine List.map_congr_left fun o' ho' => ?_
      rw [List.mem_singleton.1 (List.mem_filter.1 ho').1, (Prod.mk.inj hturn.key).1]
    have hobjects : (e.object :: s.objects).filter ChangedObject.isTaken =
        [e.object].filter ChangedObject.isTaken ++ s.objects.filter ChangedObject.isTaken :=
      List.filter_append [e.object] s.objects
    rw [ih hf, hturn.tally hnone, count_eq, hthis, hobjects, List.map_append, List.append_assoc]

end Aggregate

end Hotpatch
