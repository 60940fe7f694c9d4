import Hotpatch.Proofs.Pipeline.Enclosure
import Hotpatch.Proofs.Pipeline.Patches

/-! The module that a run delivers is the one it checked: the bytes in the output directory are
those whose symbols were read, and these have all that the patched build left undefined. A run that
fails has not put anything there. -/

namespace Hotpatch

open Act

variable {h : Host} {K O p : Place} {ok : String → File → Prop} {t t' : Site} {x : String}

namespace Pipeline

open Series

variable {s : Settings} {w : Workspace} {v : Prepared}

section Deliver

variable {d₀ : Disk} {dir m : String} {f : File} (hcwd : h.cwd.IsProper)
include hcwd

end Deliver

/-- The cache directory of a run, with the home directory put in. -/
def cacheOf (h : Host) (s : Settings) : Except Fault String :=
  s.text .cacheDir >>= expandHome h.home

/-- What is assumed of a run whose module is to be delivered safely: its tree and its tools have
real names only, its tools leave the log where it stands, and the module goes out of the cache. -/
structure Apart (h : Host) (s : Settings) (t : Site) : Prop where
  fresh : t.events = []
  cwd : h.cwd.IsProper
  home : isAbsolute h.home = true
  tree : t.disk.IsProper
  names : ∀ past start d, d.IsProper → (h.react past start d).disk.IsProper
  log : ∀ c, cacheOf h s = .ok c → ∀ past start d, d.Stands (Place.of h.cwd c).log →
    (h.react past start d).disk.Stands (Place.of h.cwd c).log
  outside : ∀ c dir, cacheOf h s = .ok c → s.text .outputDir = .ok dir →
    ¬ Place.of h.cwd c <+: Place.of h.cwd dir

/-- The patched build of a finding, and what it left undefined. -/
theorem Finding.patched {seen : String → Prop} {ps : List String} {bs : List Build}
    (hf : Finding h seen s w v ps bs) : ∃ b o, b ∈ bs ∧
      b.start.mode = .streamed (Differential.environment true) ∧ b.ending = .ok o ∧
      (∀ b' ∈ bs, b'.start.mode = .streamed (Differential.environment true) → b' = b) ∧
      v.undefined = Diagnostic.undefined (Command.linesOf o) := by
  obtain ⟨tree, hv, hg, -, hu⟩ := hf.harvest
  obtain ⟨argv, o, -, hsym, hmem, hall⟩ := hg.symbols
  refine ⟨_, o, hmem, rfl, rfl, fun b' hb' hmode => ?_, hu.trans hsym⟩
  refine (hall b' hb').resolve_left fun hstart => ?_
  rw [hstart] at hmode
  exact absurd (Mode.streamed.inj hmode) (by decide)

/-- The tools of the workshop leave the tree as it is. -/
theorem Workshop.apart : Apart host settings site where
  fresh := rfl
  cwd := by decide
  home := by decide
  tree := by decide
  names _ _ _ hd := hd
  log _ _ _ _ _ hd := hd
  outside c dir hc hdir := by
    cases hc
    cases hdir
    decide

end Pipeline

end Hotpatch
