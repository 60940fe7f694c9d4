import Hotpatch.Proofs.Robust

/-! An interrupt reaches the whole family of a process. Whichever of its members are gone already, each
is asked to terminate, all are waited for once, and those still alive are killed; then the output is
closed and the interrupt goes on. -/

namespace Hotpatch

/-- The processes of a family: the descendants, and the parent behind them. -/
def Family.members (f : Family) : List Member := f.children ++ [f.parent]

namespace Command

open Act

/-- What is said before a tool is started. -/
def announce (argv : List String) (cwd : Option String) : Act Unit := do
  Log.debug source ("Running command: " ++ " ".intercalate argv)
  if let some d := cwd then
    if d ≠ "" then Log.debug source ("Working directory: " ++ d)

variable {h : Host} {t : Site} {argv : List String} {cwd : Option String}
variable {env : List (String × String)} {o : Outcome} {n : Nat}

/-- A line goes into the log and nowhere else that an event would tell of. -/
theorem debug_apply (h : Host) (t : Site) (m : String) :
    ∃ u, Log.debug source m h t = (.ok (), u) ∧ u.events = t.events ∧
      u.records = ⟨source, .debug, m⟩ :: t.records := by
  obtain ⟨u, hu, -, hevents⟩ := Log.emit_apply h t ⟨source, .debug, m⟩
  have hrecords := Log.emit_records h t ⟨source, .debug, m⟩
  rw [hu] at hrecords
  exact ⟨u, hu, hevents, hrecords⟩

namespace Torn

/-- A build with two lines behind it. Its compiler is gone when it is asked to terminate; its linker
and the parent don't heed it. -/
def outcome : Outcome where
  status := 0
  output := some "  CC a.o\n  LD b.o\n  LD c.o\n"
  errors := none
  interruptAfter := some 2
  family := ⟨false, [⟨11, true, true, false⟩, ⟨12, false, true, true⟩], ⟨10, false, false, true⟩⟩

def host : Host where
  cwd := []
  home := "/root"
  machine := "x86_64"
  cpus := none
  environment := []
  hasTool _ := true
  react _ _ d := ⟨d, .ok outcome⟩

def site : Site where
  disk := ⟨[], 0⟩
  events := []
  records := []
  sinks := []
  console := []
  series := Series.empty

end Torn

end Command

end Hotpatch
