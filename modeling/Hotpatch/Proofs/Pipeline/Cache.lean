import Hotpatch.Proofs.Disk
import Hotpatch.Proofs.Pipeline.Course

/-! What a run writes lies in its cache directory and is not the log. So the log stays, and the
files of a directory that is not in the cache stay as the tools leave them. -/

namespace Hotpatch

open Act

variable {h : Host} {t : Site} {d : Disk} {K O p q : Place} {ok : String → File → Prop}

/-- The name of the log in the cache directory. -/
def logName : String := "build.log"

/-- Where the log of a cache directory stands. -/
def Place.log (K : Place) : Place := K ++ [logName]

/-- Below a cache directory, and not the log. -/
def Place.Inside (K p : Place) : Prop := ∃ x r, p = K ++ x :: r ∧ x ≠ logName

/-- A file stands at a place, in directories. -/
structure Disk.Stands (d : Disk) (p : Place) : Prop where
  file : (d.file? p).isSome
  dirs : ∀ q, q <+: p → q ≠ p → d.isDirAt q = true

/-- The files directly in a directory are all of some kind. -/
def Disk.Bears (d : Disk) (O : Place) (ok : String → File → Prop) : Prop :=
  ∀ n f, d.file? (O ++ [n]) = some f → ok n f

namespace Place

theorem Inside.ne_nil (hp : K.Inside p) : p ≠ [] := by
  obtain ⟨x, r, rfl, -⟩ := hp
  simp

/-- What is in the cache is not directly in a directory outside of it. -/
theorem ne_of_outside {x : String} {r : List String} (hO : ¬ K <+: O) (n : String) :
    O ++ [n] ≠ K ++ x :: r := by
  intro heq
  have hK : K <+: O ++ [n] := ⟨x :: r, heq.symm⟩
  rcases List.prefix_concat_iff.1 hK with hK | hK
  · rw [hK] at heq
    simpa using congrArg List.length heq
  · exact hO hK

theorem Inside.ne_outside (hp : K.Inside p) (hO : ¬ K <+: O) (n : String) : O ++ [n] ≠ p := by
  obtain ⟨x, r, rfl, -⟩ := hp
  exact ne_of_outside hO n

end Place

namespace Disk

theorem Stands.put_file {f : File} (hd : d.Stands q) (hp : d.isDirAt p = false) :
    (d.put p (.file f)).Stands q := by
  have hne : p ≠ [] := by
    rintro rfl
    rw [isDirAt_nil] at hp
    cases hp
  refine ⟨?_, fun q' hq' hne' => ?_⟩
  · rw [file?_put_file hne]
    split
    · rfl
    · exact hd.file
  · rw [isDirAt_put_file hp]
    exact hd.dirs q' hq' hne'

theorem Stands.store {c : Bytes} {time : Int} (hd : d.Stands q) (hp : d.isDirAt p = false) :
    (d.store p c time).Stands q :=
  ⟨(hd.put_file hp).file, (hd.put_file hp).dirs⟩

theorem Stands.put_dir (hd : d.Stands q) (hp : d.node? p = none) : (d.put p .dir).Stands q := by
  refine ⟨?_, fun q' hq' hne' => isDirAt_put_dir (hd.dirs q' hq' hne')⟩
  rw [file?_put_dir hp]
  exact hd.file

theorem Stands.erase (hd : d.Stands q) (hp : ¬ p <+: q) : (d.erase p).Stands q := by
  refine ⟨?_, fun q' hq' hne' => ?_⟩
  · rw [file?_erase, if_neg hp]
    exact hd.file
  · rw [isDirAt_erase fun hpre => hp (hpre.trans hq')]
    exact hd.dirs q' hq' hne'

theorem Bears.put_file {f : File} (hd : d.Bears O ok) (hne : p ≠ []) (hp : ∀ n, O ++ [n] ≠ p) :
    (d.put p (.file f)).Bears O ok := by
  intro n g hg
  rw [file?_put_file hne, if_neg (hp n)] at hg
  exact hd n g hg

theorem Bears.store {c : Bytes} {time : Int} (hd : d.Bears O ok) (hne : p ≠ [])
    (hp : ∀ n, O ++ [n] ≠ p) : (d.store p c time).Bears O ok :=
  hd.put_file hne hp

theorem Bears.put_dir (hd : d.Bears O ok) (hp : d.node? p = none) : (d.put p .dir).Bears O ok := by
  intro n g hg
  rw [file?_put_dir hp] at hg
  exact hd n g hg

theorem Bears.erase (hd : d.Bears O ok) (p : Place) : (d.erase p).Bears O ok := by
  intro n g hg
  rw [file?_erase] at hg
  split at hg
  · cases hg
  · exact hd n g hg

theorem IsProper.store {c : Bytes} {time : Int} (hd : d.IsProper) (hp : p.IsProper) :
    (d.store p c time).IsProper :=
  hd.put hp _

end Disk

/-- A tree of real names, with the files of a directory as they are to be. -/
structure Disk.Kept (O : Place) (ok : String → File → Prop) (d : Disk) : Prop where
  proper : d.IsProper
  files : d.Bears O ok

/-- The site of a run inside its workspace: the log stands, and takes all that is written to log
files. -/
structure Guarded (K O : Place) (ok : String → File → Prop) (t : Site) : Prop where
  kept : t.disk.Kept O ok
  log : t.disk.Stands K.log
  sinks : ∀ p n, .file p n ∈ t.sinks → p = K.log

namespace Disk.Kept

variable {c : Bytes} {time : Int}

theorem put_file {f : File} (hd : d.Kept O ok) (hp : p.IsProper) (hne : p ≠ [])
    (hO : ∀ n, O ++ [n] ≠ p) : (d.put p (.file f)).Kept O ok :=
  ⟨hd.proper.put hp _, hd.files.put_file hne hO⟩

theorem store (hd : d.Kept O ok) (hp : p.IsProper) (hne : p ≠ []) (hO : ∀ n, O ++ [n] ≠ p) :
    (d.store p c time).Kept O ok :=
  ⟨hd.proper.store hp, hd.files.store hne hO⟩

theorem put_dir (hd : d.Kept O ok) (hp : p.IsProper) (hn : d.node? p = none) :
    (d.put p .dir).Kept O ok :=
  ⟨hd.proper.put hp _, hd.files.put_dir hn⟩

theorem erase (hd : d.Kept O ok) (p : Place) : (d.erase p).Kept O ok :=
  ⟨hd.proper.erase p, hd.files.erase p⟩

/-- A file that something is added to stood there before. -/
theorem append (hd : d.Kept O ok) (hne : p ≠ []) (hp : p.IsProper) (hO : ∀ n, O ++ [n] ≠ p)
    (serial : Nat) : (d.append p serial c).Kept O ok := by
  rcases append_cases d p serial c with h | ⟨f, -, h⟩
  · rwa [h]
  · rw [h]
    exact hd.store hp hne hO

end Disk.Kept

namespace Guarded

theorem of_disk {d' : Disk} (ht : Guarded K O ok t) (hk : d'.Kept O ok) (hl : d'.Stands K.log) :
    Guarded K O ok { t with disk := d' } :=
  ⟨hk, hl, ht.sinks⟩

theorem stored {s : String} {c : Bytes} {time : Int} (hcwd : h.cwd.IsProper) (hO : ¬ K <+: O)
    (ht : Guarded K O ok t) (hs : K.Inside (Place.of h.cwd s)) (hd : t.disk.isDirAt (Place.of h.cwd s) = false) :
    Guarded K O ok { t with disk := t.disk.store (Place.of h.cwd s) c time } :=
  ht.of_disk (ht.kept.store (Place.of_proper hcwd s) hs.ne_nil (hs.ne_outside hO))
    (ht.log.store hd)

theorem weaken (ht : Guarded K O ok t) : Guarded K O (fun _ _ => True) t :=
  ⟨⟨ht.kept.proper, fun _ _ _ => trivial⟩, ht.log, ht.sinks⟩

end Guarded

end Hotpatch
