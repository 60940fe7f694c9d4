import Hotpatch.Proofs.Module.Turns

/-! The tools that make a module, in their order: the linker, what adds the checksum, the module's own
tool. Each is started once at most, and only behind what it builds on. -/

namespace Hotpatch

open Act

/-- A tool ended with status 0. -/
def Succeeded (e : Ending) : Prop := ∃ o, e = .ok o ∧ o.status = 0

/-- From `t`, a program comes to the start of a tool at `u`; the tool leaves `v`. -/
structure Launches (h : Host) (p : Act Start) (t : Site) (x : Start × Ending) (u v : Site) : Prop where
  start : p h t = (.ok x.1, u)
  ending : x.2 = (h.react u.events x.1 u.disk).ending
  site : v = (Tool.launch x.1 h u).2

/-- Since `v` no tool was started, and only the log was written. -/
def OnlyLogged (v w : Site) : Prop := Ran v [] w ∧ Logged v w

/-- How such work goes: it doesn't come to the start, or the tool is started once. Afterwards only the
log is written. -/
inductive Once {α : Type} (h : Host) (p : Act Start) (t : Site) :
    Except Fault α → Option (Start × Ending) → Site → Prop
  | never {e u} : p h t = (.error e, u) → Ran t [] u → Once h p t (.error e) none u
  | started {r x u v w} : Launches h p t x u v → Ran t [] u → OnlyLogged v w →
      (∀ b, r = .ok b → Succeeded x.2) → Once h p t r (some x) w

namespace Command

/-- What is made of an ending by work that a tool has to succeed for. -/
def demand (s : Start) (e : Ending) (f : Failure) : Act Unit := do
  let r ← Command.heed s.argv e
  if !r.succeeded then Act.fail f

end Command

namespace Assembler

/-- What comes before the linker. -/
def linking (a : Assembler) (objects : List String) (output : String) : Act Start := do
  Act.makeDirs (parent output)
  let flags ← Act.ofExcept (Json.allTexts a.linkFlags)
  Command.announced ([a.linker, "-r"] ++ flags ++ ["-o", output] ++ objects) []

/-- Where the checksum of an object is written before it is added. -/
def checksumFile (linked : String) : String := under (parent linked) "checksum.tmp"

end Assembler

section Once

variable {α : Type} {h : Host} {p : Act Start} {f : Start → Ending → Act α} {t u v w : Site}
variable {x : Start × Ending} {r : Except Fault α}

theorem Launches.ran (hl : Launches h p t x u v) (hu : Ran t [] u) : Ran t [x] v := by
  rw [hl.site]
  have hlaunched := hu.launched (h := h) x.1
  rwa [List.nil_append, ← hl.ending] at hlaunched

theorem Launches.after {β : Type} {q : Act β} {b : β} {p : β → Act Start} {t₀ : Site}
    (hq : q h t₀ = (.ok b, t)) (hl : Launches h (p b) t x u v) : Launches h (q >>= p) t₀ x u v :=
  ⟨(bind_ok hq).trans hl.start, hl.ending, hl.site⟩

theorem Once.ran {y : Option (Start × Ending)} (ho : Once h p t r y w) : Ran t y.toList w := by
  cases ho with
  | never _ hran => exact hran
  | started hl hu hv _ =>
    have hboth := (hl.ran hu).trans hv.1
    rwa [List.append_nil] at hboth

theorem Once.launched {y : Option (Start × Ending)} (ho : Once h p t r y w) :
    ∀ x ∈ y, ∃ u v, Launches h p t x u v := by
  intro x hx
  cases ho with
  | never => cases hx
  | started hl =>
    obtain rfl := Option.some.inj hx
    exact ⟨_, _, hl⟩

theorem Once.of_ok {y : Option (Start × Ending)} {b : α} (ho : Once h p t r y w) (hr : r = .ok b) :
    ∃ x u v, y = some x ∧ Succeeded x.2 ∧ Launches h p t x u v ∧ Logged v w := by
  cases ho with
  | never => cases hr
  | started hl _ hv hs => exact ⟨_, _, _, rfl, hs b hr, hl, hv.2⟩

theorem announced_keeps {I : Site → Prop} (hI : Heard h I) (argv : List String)
    (env : List (String × String)) : Keeps h I (Command.announced argv env) :=
  (hI.debug _ _).bind fun _ => .pure _

end Once

namespace Assembler

variable {h : Host} {a : Assembler} {t t' u : Site}

end Assembler

theorem Site.logs_eq {t u : Site} (hs : u.sinks = t.sinks) : u.logs = t.logs := by
  funext p
  rw [Site.logs, Site.logs, hs]

end Hotpatch
