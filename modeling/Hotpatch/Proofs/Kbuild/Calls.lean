import Mathlib.Logic.Relation
import Hotpatch.Proofs.Kbuild.History
import Hotpatch.Proofs.Kbuild.Origins

/-! Everything that can be asked of a resolver, in any order and with any ending, and what is left of
it afterwards. -/

namespace Hotpatch.Kbuild

/-- What a resolver can be asked for: the owner of an object, its parents in its own directory, or its
parents anywhere. Asking whether an object is ambiguous changes nothing. -/
inductive Call where
  | owner (object : String)
  | near (object : String)
  | broad (object : String)
  deriving DecidableEq, Repr

namespace Call

def search : Call → Search Unit
  | owner object => do let _ ← Search.owner object
  | near object => do let _ ← Search.localParents object
  | broad object => do let _ ← Search.broadParents object

end Call

/-- How calls one after another end, and the resolver after them. -/
def Resolver.after (r : Resolver) (d : Disk) (cwd : Place) :
    List Call → List (Except Fault Unit) × Resolver
  | [] => ([], r)
  | call :: calls =>
    let (a, s) := call.search (d, cwd) ⟨r, []⟩
    let (as, r) := s.resolver.after d cwd calls
    (a :: as, r)

/-- A chain of parents; only its last member can be a module or go straight into the kernel image. -/
def Chain (parent : String → String → Prop) : String → String → Prop :=
  Relation.ReflTransGen fun a b => isTop a = false ∧ parent a b

namespace Search

variable {t : Tree} {r : Resolver} {I : Resolver → Prop} {E : Except Fault Unit → Prop}

/-- What every call keeps that ends in some way, calls keep that all do. -/
theorem after_keeps_of (hI : ∀ (call : Call) r, I r → Ends t r call.search fun v r' => E v → I r') (hr : I r)
    (calls : List Call) (h : ∀ a ∈ (r.after t.disk t.cwd calls).1, E a) :
    I (r.after t.disk t.cwd calls).2 := by
  induction calls generalizing r with
  | nil => exact hr
  | cons call calls ih =>
    rw [Resolver.after] at h ⊢
    dsimp only at h ⊢
    have hnext := hI call r hr [] (h _ List.mem_cons_self)
    exact ih hnext fun a ha => h a (List.mem_cons_of_mem _ ha)

/-- What every call keeps, calls keep. -/
theorem after_keeps (hI : ∀ (call : Call) r, I r → Ends t r call.search fun _ r' => I r') (hr : I r)
    (calls : List Call) : I (r.after t.disk t.cwd calls).2 :=
  after_keeps_of (E := fun _ => True)
    (fun call r hr => (hI call r hr).imp fun _ _ h _ => h) hr calls fun _ _ => trivial

/-- A search that is asked for what it does, not for what it finds. -/
theorem Ends.done {α : Type} {s : Search α} {P : Except Fault Unit → Resolver → Prop}
    (hs : Ends t r s fun v r' => P (v.map fun _ => ()) r') :
    Ends t r (do let _ ← s) P :=
  hs.bind (fun _ _ h => .pure h) fun _ _ h => h

/-- A call is a search for an owner or a mere look for parents. -/
theorem call_ends {P : Except Fault Unit → Resolver → Prop}
    (howner : ∀ object, Ends t r (owner object) fun v r' => P (v.map fun _ => ()) r')
    (hnear : ∀ dir object, Ends t r (parentsIn dir object) fun v r' =>
      Glance r v r' → P (v.map fun _ => ()) r')
    (hbroad : ∀ object, Ends t r (broadParents object) fun v r' =>
      Glance r v r' → P (v.map fun _ => ()) r')
    (call : Call) : Ends t r call.search P := by
  cases call with
  | owner object => exact .done (howner object)
  | near object =>
    exact .done (((hnear (dirname object) object).and
      (parentsIn_glance t r (dirname object) object)).imp fun _ _ hf => hf.1 hf.2)
  | broad object =>
    exact .done (((hbroad object).and (broadParents_glance t r object)).imp fun _ _ hf => hf.1 hf.2)

end Search

theorem ofTree_held {d : Disk} {cwd : Place} {source image : String} {outside : Option String} :
    Held (treeOf d cwd source) (Resolver.ofTree cwd source image outside) :=
  ⟨rfl, rfl, List.nodup_nil, nofun, nofun, nofun⟩

end Hotpatch.Kbuild
