import Hotpatch.Proofs.Patch.Discipline
import Hotpatch.Proofs.Robust

/-! Work beside a patch series: tools that run in no tree, changes of other files, and git that looks at
the tree. It uses no patch, so a series at rest stays at rest. -/

namespace Hotpatch.Series

open Act

variable {h : Host} {t t' : Site} {mine : String → Prop}

/-- The series is as it was at `t`, and every event since then is one of `P`. -/
def Since (P : Event → Prop) (t t' : Site) : Prop :=
  t'.series = t.series ∧ ∃ new, t'.events = new ++ t.events ∧ ∀ e ∈ new, P e

/-- What work beside the series leaves: no patch was used and no build started since `t`. -/
def Aside (t t' : Site) : Prop :=
  t'.series = t.series ∧
    ∃ new, t'.events = new ++ t.events ∧ ∀ e ∈ new, e.patchStart? = none ∧ e.isBuild = false

theorem Aside.refl (t : Site) : Aside t t := ⟨rfl, [], rfl, by simp⟩

section Since

variable {P : Event → Prop}

theorem Since.refl (P : Event → Prop) (t : Site) : Since P t t := ⟨rfl, [], rfl, by simp⟩

theorem since_placid (hmark : ∀ e, e.isRun = false → P e) (t : Site) :
    Placid h mine (fun _ => True) (Since P t) := by
  refine Placid.of_events (J := fun s es => s = t.series ∧
    ∃ new, es = new ++ t.events ∧ ∀ e ∈ new, P e) ?_
  rintro s _ e he ⟨rfl, new, rfl, hn⟩
  exact ⟨rfl, e :: new, rfl, List.forall_mem_cons.2 ⟨hmark e he, hn⟩⟩

theorem since_launch {s : Start} (hs : ∀ r, P (.ran s r)) : Keeps h (Since P t) (Tool.launch s) := by
  rintro u ⟨hseries, new, he, hn⟩
  refine ⟨hseries, .ran s (h.react u.events s u.disk).ending :: new, ?_,
    List.forall_mem_cons.2 ⟨hs _, hn⟩⟩
  rw [List.cons_append, ← he]
  rfl

theorem since_robust (hmark : ∀ e, e.isRun = false → P e)
    (hloose : ∀ s r, s.cwd = none → P (.ran s r)) (t : Site) :
    Robust h mine (fun _ => True) (Since P t) :=
  ⟨since_placid hmark t, fun s hs => since_launch fun r => hloose s r hs⟩

theorem since_refreshIndex (hmark : ∀ e, e.isRun = false → P e)
    (hgit : ∀ tree r, P (.ran ⟨["git", "update-index", "-q", "--refresh"], some tree, .captured⟩ r)) :
    Keeps h (Since P t) refreshIndex := by
  have hI : Placid h (fun _ => True) _ (Since P t) := since_placid hmark t
  refine Keeps.get.bind fun _ => ?_
  refine (Keeps.present _).bind fun _ => ?_
  split
  · exact .pure _
  · refine (Robust.start (since_launch fun r => hgit _ r)).bind fun _ => ?_
    split
    · split
      · exact .throw _
      · exact hI.debug _ _
    · exact .pure _

end Since

theorem patchUse?_loose {s : Start} (hs : s.cwd = none) : s.patchUse? = none := by
  unfold Start.patchUse?
  split <;> first | rfl | cases hs

theorem aside_mark {e : Event} (he : e.isRun = false) : e.patchStart? = none ∧ e.isBuild = false := by
  cases e with
  | ran => cases he
  | _ => exact ⟨rfl, rfl⟩

theorem aside_robust (t : Site) : Robust h mine (fun _ => True) (Aside t) :=
  since_robust (fun _ => aside_mark) (fun s r hs => ⟨patchUse?_loose hs, by
    simp [Event.isBuild, Start.isBuild, hs]⟩) t

theorem aside_refreshIndex : Keeps h (Aside t) refreshIndex :=
  since_refreshIndex (fun _ => aside_mark) fun _ _ => ⟨rfl, rfl⟩

theorem AtRest.aside (ht : AtRest t) (ha : Aside t t') : AtRest t' := by
  obtain ⟨hs, new, he, hn⟩ := ha
  exact ht.of_unused hs he fun e he => (hn e he).1

theorem Aside.advance (ha : Aside t t') :
    ∃ new, Advance t t' new ∧ Clean new ∧ ∀ e ∈ new, e.patchStart? = none := by
  obtain ⟨hs, new, he, hn⟩ := ha
  exact ⟨new, ⟨he, by rw [hs], by rw [hs], fun e he => (hn e he).2⟩,
    clean_of_unused fun e he => (hn e he).1, fun e he => (hn e he).1⟩

end Hotpatch.Series
