import Hotpatch.Proofs.Gaps
import Hotpatch.Proofs.Pipeline.Run
import Hotpatch.Proofs.Settings

/-! Settings whose values are of the makes they are meant to have, and the checks they go through. They
stay so when they are completed, and what is filled in then is never missing. -/

namespace Hotpatch

open Act Fault

variable {h : Host}

namespace Settings

variable {s s' : Settings} {f : Field}

theorem texts_of_allTexts {js : List Json} {ss : List String} (hjs : Json.allTexts js = .ok ss) :
    js = ss.map .str := by
  induction js generalizing ss with
  | nil =>
    cases hjs
    rfl
  | cons j js ih =>
    rw [Json.allTexts, List.mapM_cons, ← Json.allTexts] at hjs
    cases j with
    | str a =>
      rcases hr : Json.allTexts js with e | rs
      · rw [hr] at hjs
        cases hjs
      · rw [hr] at hjs
        cases hjs
        rw [ih hr, List.map_cons]
    | _ => cases hjs

theorem accepts_of_isProper (hs : s.isProper = true) (f : Field) :
    f.make.accepts (s.value f) = true :=
  List.all_eq_true.1 hs f (mem_all f)

theorem isProper_of_accepts (hs : ∀ f : Field, f.make.accepts (s.value f) = true) : s.isProper = true :=
  List.all_eq_true.2 fun f _ => hs f

theorem text_of_accepts {j : Json} (hj : Field.Make.accepts .text j = true) : ∃ a, j = .str a := by
  cases j with
  | str a => exact ⟨a, rfl⟩
  | _ => cases hj

theorem optionalText_of_accepts {j : Json} (hj : Field.Make.accepts .optionalText j = true) :
    j = .null ∨ ∃ a, j = .str a := by
  cases j with
  | null => exact .inl rfl
  | str a => exact .inr ⟨a, rfl⟩
  | _ => cases hj

theorem texts_of_accepts {j : Json} (hj : Field.Make.accepts .texts j = true) :
    ∃ ss, j = Json.ofTexts ss := by
  cases j with
  | arr js =>
    rw [Field.Make.accepts] at hj
    rcases hjs : Json.allTexts js with e | ss
    · rw [hjs] at hj
      cases hj
    · exact ⟨ss, by rw [texts_of_allTexts hjs, Json.ofTexts]⟩
  | _ => cases hj

theorem integer_of_accepts {j : Json} (hj : Field.Make.accepts .integer j = true) :
    ∃ n, j = .int n := by
  cases j with
  | int n => exact ⟨n, rfl⟩
  | _ => cases hj

theorem useSource_isProper {tree : String} (hs : s.isProper = true)
    (hr : s.useSource (.str tree) = .ok s') : s'.isProper = true :=
  isProper_of_accepts (useSource_keeps (fun hj => hj) (accepts_of_isProper hs) hr)

/-- Settings in which something is missing that is filled in whenever settings are made: the target, or
a file in a source tree that is given. -/
def Lacks (s : Settings) (f : Field) : Prop :=
  (s.value f).isNull = true ∧
    (f = .arch ∨ (f = .configFile ∨ f = .vmlinux) ∧ (s.value .sourceDir).isNull = false)

/-- Settings lack nothing when they are made. -/
theorem not_lacks_of_complete (hr : s.complete h = .ok s') (f : Field) : ¬ s'.Lacks f := by
  have hcomplete := isComplete_of_complete hr
  rintro ⟨hnull, rfl | ⟨hf, htree⟩⟩
  · rw [hcomplete.arch] at hnull
    cases hnull
  · obtain hnone | ⟨-, hconfig, himage⟩ := hcomplete.tree
    · rw [hnone] at htree
      cases htree
    · obtain rfl | rfl := hf
      · rw [hconfig] at hnull
        cases hnull
      · rw [himage] at hnull
        cases hnull

section Checks

variable {t u : Site}

/-- A path that the settings give: by itself or as one of the patches. -/
def Names (s : Settings) (path : String) : Prop :=
  (∃ f, s.value f = .str path) ∨ ∃ ps, s.value .patches = Json.ofTexts ps ∧ path ∈ ps

/-- The gaps in the checks of settings: paths that can't be asked for, and texts that are missing. -/
inductive Gap (s : Settings) (e : Fault) : {β : Type} → Act β → Except Fault β → Prop
  | file {path : String} : s.Names path → s.Gap e (Act.isFile (clean path)) (.error e)
  | directory {path : String} : s.Names path → s.Gap e (Act.isDir (clean path)) (.error e)
  | missing {f : Field} : s.Lacks f → s.Gap e (Act.ofExcept (s.value f).text) (.error e)

theorem text_of_ok {j : Json} {t u : Site} {p : String}
    (hr : Act.ofExcept j.text h t = (.ok p, u)) : j = .str p := by
  rw [ofExcept_apply] at hr
  cases j with
  | str q =>
    cases hr
    rfl
  | _ => cases hr

/-- A path that passed a check is a text. -/
theorem needFile_ok {what : String} {path : Json} (hr : needFile what path h t = (.ok (), u)) :
    ∃ p, path = .str p := by
  rw [needFile] at hr
  obtain ⟨p, t', hp, -⟩ := bind_of_ok hr
  exact ⟨p, text_of_ok hp⟩

theorem needDirectory_ok {what : String} {path : Json}
    (hr : needDirectory what path h t = (.ok (), u)) : ∃ p, path = .str p := by
  rw [needDirectory] at hr
  obtain ⟨p, t', hp, -⟩ := bind_of_ok hr
  exact ⟨p, text_of_ok hp⟩

/-- Settings that were checked have a source tree with a configuration and an image. -/
theorem validate_ok {s : Settings} (hr : s.validate h t = (.ok (), u)) {f : Field}
    (hf : f = .sourceDir ∨ f = .configFile ∨ f = .vmlinux) : ∃ p, s.value f = .str p := by
  rw [validate] at hr
  obtain ⟨t₁, hr⟩ := guard_of_ok hr
  obtain ⟨t₂, hr⟩ := guard_of_ok hr
  obtain ⟨js, t₃, -, hr⟩ := bind_of_ok hr
  obtain ⟨⟨⟩, t₄, -, hr⟩ := bind_of_ok hr
  obtain ⟨⟨⟩, t₅, htree, hr⟩ := bind_of_ok hr
  obtain ⟨⟨⟩, t₆, himage, hr⟩ := bind_of_ok hr
  obtain ⟨⟨⟩, t₇, hconfig, -⟩ := bind_of_ok hr
  obtain rfl | rfl | rfl := hf
  · exact needDirectory_ok htree
  · exact needFile_ok hconfig
  · exact needFile_ok himage

end Checks

end Settings

end Hotpatch
