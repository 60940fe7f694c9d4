import Hotpatch.Proofs.Module.Making

/-! What a comparison starts, from its first tool to its last: each object that is due is compared in its
turn, what changed is linked, and only what could be linked gets a checksum and becomes a module. -/

namespace Hotpatch

open Act

namespace Aggregate

/-- What comes before the linker. -/
def untilLinker (a : Aggregate) (outputs : List String) : Act Start := do
  Log.info source ("Linking " ++ toString outputs.length ++ " object(s) into " ++ a.moduleName)
  a.assembler.linking outputs a.linked

variable {a : Aggregate} {h : Host} {t u : Site} {outputs : List String}

/-- How the tool that adds the checksum is started. -/
def marker (a : Aggregate) : Start :=
  ⟨[a.assembler.objcopy, "--add-section",
    Assembler.checksumSection ++ "=" ++ Assembler.checksumFile a.linked, a.linked], none, .streamed []⟩

/-- The linker succeeded, and what it left, `c`, can be linked again. No log file may be there. -/
structure Links (a : Aggregate) (h : Host) (outputs : List String) (t : Site) (x : Start × Ending)
    (c : Bytes) : Prop where
  succeeded : Succeeded x.2
  relocatable : Elf.isRelocatable c.toArray = true
  left : ∃ u v, Launches h (a.untilLinker outputs) t x u v ∧
    (¬ t.logs (Place.of h.cwd a.linked) → v.disk.read h.cwd a.linked = .ok c)

/-- From `t`, `p` comes to the tool that adds the checksum of `c`: when it is started, its file holds the
checksum with a zero behind. No log file may be there. -/
structure Marks (a : Aggregate) (h : Host) (p : Act Start) (t : Site) (c : Bytes)
    (y : Start × Ending) : Prop where
  shadow : a.shadow = true
  start : y.1 = a.marker
  holds : ∃ u v, Launches h p t y u v ∧
    (¬ t.logs (Place.of h.cwd (Assembler.checksumFile a.linked)) →
      u.disk.read h.cwd (Assembler.checksumFile a.linked) =
        .ok (Text.encode (Digest.Md5.hash c) ++ [0]))

theorem Marks.after {β : Type} {q : Act β} {b : β} {p : β → Act Start} {c : Bytes} {y : Start × Ending}
    (hm : a.Marks h (p b) u c y) (hq : q h t = (.ok b, u)) (hs : u.sinks = t.sinks) :
    a.Marks h (q >>= p) t c y := by
  obtain ⟨w, v, hl, hholds⟩ := hm.holds
  rw [Site.logs_eq hs] at hholds
  exact ⟨hm.shadow, hm.start, w, v, hl.after hq, hholds⟩

/-- The files that are to be linked: those of the objects that changed or are new. -/
def linkable (a : Aggregate) (objects : List ChangedObject) : List String :=
  (objects.filter ChangedObject.isTaken).map fun o => under a.output o.path

end Aggregate

end Hotpatch
