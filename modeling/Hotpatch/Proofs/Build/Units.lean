import Hotpatch.Proofs.Build.Harvest
import Hotpatch.Proofs.Kbuild.Roundtrip

/-! Which files of a tree two snapshots speak of: the objects that were compiled from one source file.
What two states of a tree show against each other follows from these objects and their bytes alone. -/

namespace Hotpatch

namespace Path

end Path

namespace Disk

variable {d : Disk} {cwd p : Place} {enter : String → Bool} {r : Place} {x : Node} {s : String}

/-- Below a place is met what stands there and is reached through directories that are entered. -/
theorem IsSound.mem_beneath (hd : d.IsSound) : (r, x) ∈ d.beneath enter p ↔
    r ≠ [] ∧ d.node? (p ++ r) = some x ∧ (∀ n ∈ r.dropLast, enter n = true) ∧
      ∀ m, m <+: r → m ≠ r → d.isDirAt (p ++ m) = true := by
  rw [Disk.mem_beneath]
  constructor
  · rintro ⟨hmem, hne, hway⟩
    exact ⟨hne, hd.node_of_mem hmem (List.append_ne_nil_of_right_ne_nil _ hne), hway⟩
  · rintro ⟨hne, hnode, hway⟩
    rw [node?, if_neg (List.append_ne_nil_of_right_ne_nil _ hne)] at hnode
    exact ⟨(lookup_iff_mem hd.places).1 hnode, hne, hway⟩

end Disk

namespace Fingerprints

/-- The object `name` in the directory of a tree that the names `dir` lead to was compiled from one
source file, and has some content. Archives, what is linked or generated, and what is below a directory
with a leading dot is no such object. -/
structure TranslationUnit (d : Disk) (cwd : Place) (tree : String) (dir : Place) (name : String)
    (content : Bytes) : Prop where
  root : d.isDir cwd (clean tree) = true
  file : (d.file? (Place.of cwd (clean tree) ++ (dir ++ [name]))).map File.content = some content
  reached : ∀ m, m <+: dir → d.isDirAt (Place.of cwd (clean tree) ++ m) = true
  visible : ∀ n ∈ dir, n.toList.head? ≠ some '.'
  object : ".o".toList <:+ name.toList
  plain : name ≠ "built-in.o" ∧ name ≠ "vmlinux.o" ∧ ¬ ".mod.o".toList <:+ name.toList
  lasting : ¬ ".tmp_".toList <+: name.toList
  /-- Its own record has a command that compiles a source file. -/
  compiled : ∃ record command, d.readText cwd
      (under (under (clean tree) ("/".intercalate dir)) ("." ++ name ++ ".cmd")) = .ok record ∧
    command ∈ Kbuild.commands record ∧ "-c" ∈ Kbuild.tokens command ∧
      ∃ t ∈ Kbuild.tokens command, ".c".toList <:+ t.toList ∨ ".S".toList <:+ t.toList

/-- The path of a translation unit from the tree, and its content. -/
def IsUnit (d : Disk) (cwd : Place) (tree path : String) (content : Bytes) : Prop :=
  ∃ dir name, path = "/".intercalate (dir ++ [name]) ∧ TranslationUnit d cwd tree dir name content

variable {d : Disk} {cwd : Place} {tree path digest name : String} {dir : Place} {content : Bytes}
variable {B P : Fingerprints}

/-- Two lists tell the first state of a tree, in which objects have the contents `U`, from the second
one, in which they have `V`. -/
structure Isolates (U V : String → Bytes → Prop) (c : Comparison) : Prop where
  changed : c.changed.Pairwise (· < ·)
  mem_changed : ∀ p, p ∈ c.changed ↔ ∃ x y, U p x ∧ V p y ∧ x ≠ y
  new : c.new.Pairwise (· < ·)
  mem_new : ∀ p, p ∈ c.new ↔ (∃ y, V p y) ∧ ∀ x, ¬ U p x

theorem Isolates.unique {U V : String → Bytes → Prop} {c c' : Comparison} (hc : Isolates U V c)
    (hc' : Isolates U V c') : c = c' := by
  have sorted_eq : ∀ {as bs : List String}, as.Pairwise (· < ·) → bs.Pairwise (· < ·) →
      (∀ p, p ∈ as ↔ p ∈ bs) → as = bs := by
    intro as bs ha hb hab
    have le_of_lt : ∀ {a b : String}, a < b → a ≤ b := fun h => String.not_lt.1 (String.lt_asymm h)
    have ne_of_lt : ∀ {a b : String}, a < b → a ≠ b := by
      rintro a _ h rfl
      exact String.lt_irrefl a h
    exact Kbuild.sorted_ext (ha.imp le_of_lt) (hb.imp le_of_lt) (ha.imp ne_of_lt) (hb.imp ne_of_lt) hab
  have hchanged := sorted_eq hc.changed hc'.changed fun p => by rw [hc.mem_changed, hc'.mem_changed]
  have hnew := sorted_eq hc.new hc'.new fun p => by rw [hc.mem_new, hc'.mem_new]
  cases c
  cases c'
  rw [Comparison.mk.injEq]
  exact ⟨hchanged, hnew⟩

variable {d₁ d₂ : Disk}

theorem IsUnit.stands {p : String} {x : Bytes} (hu : IsUnit d cwd tree p x) :
    ∃ q f, (q, Node.file f) ∈ d.nodes ∧ f.content = x ∧ ∃ ns, p = "/".intercalate ns ∧
      q = Place.of cwd (clean tree) ++ ns := by
  obtain ⟨dir, name, rfl, hu⟩ := hu
  obtain ⟨f, hf, hx⟩ := Option.map_eq_some_iff.1 hu.file
  have hnode := Disk.file?_eq_some.1 hf
  exact ⟨_, f, Disk.node_of_lookup hnode (by simp), hx, _, rfl, rfl⟩

end Fingerprints

end Hotpatch
