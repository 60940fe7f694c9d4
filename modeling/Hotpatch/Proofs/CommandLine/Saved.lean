import Hotpatch.Proofs.CommandLine.Overrides
import Hotpatch.Proofs.Gaps.Settings
import Hotpatch.Proofs.Json.Parsed

/-! Settings that were saved on one machine are loaded as they are on any other. What was filled in when
they were made is not filled in again, and what could be written is read back. -/

namespace Hotpatch

open Act Json

variable {h : Host}

namespace Settings

variable {s : Settings} {f : Field} {j : Json} {ms : List (String × Json)} {t t' : Site} {path : String}

section Written

/-- Whether a value comes back once it could be written: an integer of any length may stand alone. -/
def IsSavable (j : Json) : Prop := IsPlain (deepest - 1) j ∨ ∃ n, j = .int n

end Written

section Made

theorem truth_of_accepts (hj : Field.Make.accepts .truth j = true) : ∃ b, j = .bool b := by
  cases j with
  | bool b => exact ⟨b, rfl⟩
  | _ => cases hj

theorem savable_of_accepts (hj : f.make.accepts j = true) : IsSavable j := by
  cases hmake : f.make with
  | text =>
    obtain ⟨a, rfl⟩ := text_of_accepts (hmake ▸ hj)
    exact .inl (.str a)
  | optionalText =>
    obtain rfl | ⟨a, rfl⟩ := optionalText_of_accepts (hmake ▸ hj)
    · exact .inl .null
    · exact .inl (.str a)
  | texts =>
    obtain ⟨ss, rfl⟩ := texts_of_accepts (hmake ▸ hj)
    exact .inl (CommandLine.plain_ofTexts ss)
  | integer => exact .inr (integer_of_accepts (hmake ▸ hj))
  | truth =>
    obtain ⟨b, rfl⟩ := truth_of_accepts (hmake ▸ hj)
    exact .inl (.bool b)

/-- The values that settings have unless they are given are of the makes they are meant to have. -/
theorem accepts_standard (f : Field) : f.make.accepts f.standard = true := by
  cases f <;> decide

theorem savable_blank (f : Field) : IsSavable (blank.value f) :=
  savable_of_accepts (accepts_standard f)

theorem made_of_complete {s₀ : Settings} (hs₀ : ∀ f, IsSavable (s₀.value f))
    (hs : s₀.complete h = .ok s) : IsComplete h s ∧ ∀ f, IsSavable (s.value f) :=
  ⟨isComplete_of_complete hs,
    complete_keeps (P := fun _ => IsSavable) savable_of_accepts hs₀ hs⟩

/-- Every value that is put in was given, with the name of its setting. -/
theorem mem_of_named {given : List (Field × Json)} (hgiven : (ms.mapM fun m =>
      match Field.ofTitle? m.1 with
      | some f => Except.ok (f, m.2)
      | none => .error Fault.illTyped) = .ok given) :
    ∀ g ∈ given, ∃ m ∈ ms, Field.ofTitle? m.1 = some g.1 ∧ m.2 = g.2 := by
  induction ms generalizing given with
  | nil =>
    cases hgiven
    exact fun g hg => absurd hg List.not_mem_nil
  | cons m ms ih =>
    rw [List.mapM_cons] at hgiven
    obtain ⟨g, hg, hgiven⟩ := exists_of_bind hgiven
    obtain ⟨rest, hrest, hgiven⟩ := exists_of_bind hgiven
    cases hgiven
    refine List.forall_mem_cons.2 ⟨⟨m, List.mem_cons_self, ?_⟩, fun g' hg' => ?_⟩
    · split at hg
      next hf =>
        cases hg
        exact ⟨hf, rfl⟩
      next => cases hg
    · obtain ⟨m', hm', hg'⟩ := ih hrest g' hg'
      exact ⟨m', List.mem_cons_of_mem m hm', hg'⟩

theorem foldl_keeps {P : Json → Prop} {given : List (Field × Json)} (hgiven : ∀ g ∈ given, P g.2)
    (hs : ∀ f, P (s.value f)) : ∀ f, P ((given.foldl (fun s g => s.put g.1 g.2) s).value f) := by
  induction given generalizing s with
  | nil => exact hs
  | cons g given ih =>
    exact ih (fun g' hg' => hgiven g' (List.mem_cons_of_mem g hg'))
      (put_keeps (P := fun _ => P) hs (hgiven g List.mem_cons_self))

/-- Settings of members lack nothing, and if the members can be saved, so can the settings. -/
theorem made_of_members (hms : ∀ m ∈ ms, ∀ f, Field.ofTitle? m.1 = some f → IsSavable m.2)
    (hs : ofMembers h ms = .ok s) : IsComplete h s ∧ ∀ f, IsSavable (s.value f) := by
  obtain ⟨given, hgiven, hcomplete⟩ := exists_of_bind hs
  have hvalues : ∀ g ∈ given, IsSavable g.2 := by
    intro g hg
    obtain ⟨m, hm, hf, hj⟩ := mem_of_named hgiven g hg
    exact hj ▸ hms m hm g.1 hf
  exact made_of_complete (foldl_keeps hvalues savable_blank) hcomplete

theorem members_of_ofJson (hs : ofJson h j = .ok s) : ∃ ms, j = .obj ms ∧ ofMembers h ms = .ok s := by
  obtain ⟨names, -, hs⟩ := exists_of_bind hs
  split at hs
  · cases j with
    | obj ms => exact ⟨ms, rfl, hs⟩
    | _ => cases hs
  · cases hs

theorem plain_members {depth : Nat} (hj : IsPlain depth (.obj ms)) :
    ∀ m ∈ ms, IsPlain (depth - 1) m.2 := by
  cases hj with
  | obj hnames hms => exact hms

theorem plain_of_readJson (hr : readJson path h t = (.ok (.ok j), t')) : IsPlain deepest j := by
  obtain ⟨r, u, -, hr⟩ := bind_of_ok hr
  rcases r with e | text
  · cases e <;> cases hr
  · dsimp only at hr
    cases hparse : Json.parse text with
    | ok j' =>
      rw [hparse] at hr
      cases hr
      exact plain_of_parse hparse
    | error flaw =>
      rw [hparse] at hr
      obtain ⟨why, u', -, hr⟩ := bind_of_ok hr
      cases hr

/-- Settings that are loaded were read as JSON. -/
theorem json_of_load (hs : load path h t = (.ok s, t')) :
    ∃ j, IsPlain deepest j ∧ ofJson h j = .ok s := by
  obtain ⟨r, u, hread, hs⟩ := bind_of_ok hs
  rcases r with why | j
  · cases hs
  · dsimp only at hs
    rw [bind_ok (read_apply h u), ofExcept_apply] at hs
    exact ⟨j, plain_of_readJson hread, congrArg Prod.fst hs⟩

/-- Settings from a file lack nothing and can be saved. -/
theorem made_of_load (hs : load path h t = (.ok s, t')) :
    IsComplete h s ∧ ∀ f, IsSavable (s.value f) := by
  obtain ⟨j, hplain, hj⟩ := json_of_load hs
  obtain ⟨ms, rfl, hms⟩ := members_of_ofJson hj
  exact made_of_members (fun m hm _ _ => .inl (plain_members hplain m hm)) hms

end Made

end Settings

namespace CommandLine

open Settings

variable {a : Arguments} {s : Settings} {t t' : Site} {f : Field} {j : Json}

theorem choice_savable (hj : choice a f = some j) : IsSavable j := by
  by_cases hf : f = .jobs
  · subst hf
    obtain ⟨n, -, rfl⟩ := Option.map_eq_some_iff.1 hj
    exact .inr ⟨n, rfl⟩
  · have hsame : choice { a with jobs := none } f = choice a f := by
      cases f <;> first | rfl | exact absurd rfl hf
    exact .inl (choice_plain (fun n hn => absurd hn (by simp)) (hsame.trans hj))

theorem overValue_savable (hj : IsSavable j) : IsSavable (overValue a f j) :=
  overValue_keeps (fun text => .inl (.str text)) (fun _ => choice_savable) hj

/-- Settings that the options make lack nothing and can be saved. -/
theorem made_of_settings (hs : settings a h t = (.ok s, t')) :
    IsComplete h s ∧ ∀ f, IsSavable (s.value f) := by
  obtain ⟨s₀, ⟨hcomplete, hsavable⟩, hover⟩ : ∃ s₀,
      (IsComplete h s₀ ∧ ∀ f, IsSavable (s₀.value f)) ∧ overAll a s₀ = .ok s := by
    cases hfile : given a.settings with
    | none =>
      rw [settings_start hfile] at hs
      exact ⟨start h, made_of_complete savable_blank (complete_blank h), congrArg Prod.fst hs⟩
    | some file =>
      rw [settings, hfile] at hs
      obtain ⟨s₀, u, hload, hs⟩ := bind_of_ok hs
      dsimp only at hs
      rw [ofExcept_apply] at hs
      exact ⟨s₀, made_of_load hload, congrArg Prod.fst hs⟩
  cases hn : a.jobs with
  | none =>
    rw [overAll_none hn] at hover
    cases hover
  | some n =>
    rw [overAll_eq hn] at hover
    cases hover
    exact ⟨withOptions_complete hcomplete a, fun f => overValue_savable (hsavable f)⟩

end CommandLine

namespace Settings

variable {s : Settings} {t t' : Site} {path : String}

/-- How settings come about: from members of the makes they are meant to have, or from a command line
with the settings file that it names. -/
inductive Made (h : Host) (s : Settings) : Prop
  | built {ms : List (String × Json)}
    (hms : ∀ m ∈ ms, ∀ f, Field.ofTitle? m.1 = some f → f.make.accepts m.2 = true)
    (hs : ofMembers h ms = .ok s) : Made h s
  | chosen {a : CommandLine.Arguments} {t t' : Site}
    (hs : CommandLine.settings a h t = (.ok s, t')) : Made h s

theorem Made.complete (hs : Made h s) : IsComplete h s ∧ ∀ f, IsSavable (s.value f) := by
  cases hs with
  | built hms hs => exact made_of_members (fun m hm f hf => savable_of_accepts (hms m hm f hf)) hs
  | chosen hs => exact CommandLine.made_of_settings hs

/-- A name that needs escapes, and a source tree. -/
def Odd.members : List (String × Json) :=
  [("name", .str "it's \"é\" \\ \t\x01😀"), ("source_dir", .str "linux")]

def Odd.settings : Settings :=
  ((ofMembers SourceCache.sampleHost Odd.members).toOption).getD blank

end Settings

end Hotpatch
