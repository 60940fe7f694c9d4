import Hotpatch.Proofs.Gaps.Settings
import Hotpatch.Proofs.Json.Nesting

/-! Settings that are loaded from a file with whatever content. Loading gives settings or refuses the file as
a configuration, with two exceptions: a text that is nested too deeply, and a value that settings can't
be made of although no name in it is unknown. -/

namespace Hotpatch.Settings

open Act

variable {h : Host} {t : Site} {s : Settings} {f : Field} {tree j : Json} {js : List Json}
  {ms : List (String × Json)} {path : String}

/-- A value, or a configuration that is refused. -/
def Told {α : Type} (r : Except Fault α) : Prop :=
  (∃ a, r = .ok a) ∨ ∃ message, r = .error (.failure (.configuration message))

theorem Told.sound {α : Type} {r : Except Fault α} (hr : Told r) :
    r ≠ .error .tooDeep ∧ r ≠ .error .illTyped := by
  obtain ⟨a, rfl⟩ | ⟨message, rfl⟩ := hr
  · simp
  · simp

section Completion

/-- Whether a source tree, if there is one, can be asked for all that it has to tell. -/
def isSourced (s : Settings) : Bool :=
  match s.value .sourceDir with
  | .null | .str _ => true
  | _ => !(s.value .configFile).isNull && !(s.value .vmlinux).isNull

theorem settled_value (harch : f ≠ .arch) (hjobs : f ≠ .jobs) :
    (settled h s).value f = s.value f := by
  rw [settled]
  split
  · rw [put_value, if_neg hjobs, fill_value, if_neg fun hf => harch hf.1]
  · rw [fill_value, if_neg fun hf => harch hf.1]

/-- What is no text tells nothing. -/
theorem fillFrom_mute (htree : tree.text = .error .illTyped) (file : String) :
    s.fillFrom f tree file = if (s.value f).isNull then .error .illTyped else .ok s := by
  rw [fillFrom, htree]
  rfl

theorem useSource_mute (htree : tree.text = .error .illTyped) : s.useSource tree =
    if !(s.value .configFile).isNull && !(s.value .vmlinux).isNull
    then .ok (s.put .sourceDir (.str tree.shown)) else .error .illTyped := by
  have hconfig : (s.put .sourceDir (.str tree.shown)).value .configFile = s.value .configFile := rfl
  have himage : (s.put .sourceDir (.str tree.shown)).value .vmlinux = s.value .vmlinux := rfl
  rw [useSource, fillFrom_mute htree, hconfig]
  cases (s.value .configFile).isNull
  · show fillFrom _ _ _ _ = _
    rw [fillFrom_mute htree, himage]
    cases (s.value .vmlinux).isNull <;> rfl
  · rfl

theorem complete_ends (h : Host) (s : Settings) :
    if s.isSourced then ∃ s', s.complete h = .ok s' else s.complete h = .error .illTyped := by
  have hvalue : (settled h s).value .sourceDir = s.value .sourceDir := settled_value (by decide) (by decide)
  have hconfig : (settled h s).value .configFile = s.value .configFile := settled_value (by decide) (by decide)
  have himage : (settled h s).value .vmlinux = s.value .vmlinux := settled_value (by decide) (by decide)
  have hmute : ∀ tree : Json, tree.isNull = false → tree.text = .error .illTyped →
      s.value .sourceDir = tree → s.complete h =
        if !(s.value .configFile).isNull && !(s.value .vmlinux).isNull
        then .ok ((settled h s).put .sourceDir (.str tree.shown)) else .error .illTyped := by
    intro tree hnull htext htree
    rw [complete_eq, hvalue, htree, if_neg (by simp [hnull]), useSource_mute htext, hconfig, himage]
  rw [isSourced]
  cases htree : s.value .sourceDir with
  | null => exact ⟨_, by rw [complete_eq, hvalue, htree]; rfl⟩
  | str a => exact ⟨_, by rw [complete_eq, hvalue, htree, if_neg (by simp [Json.isNull]), useSource_str]⟩
  | _ =>
    dsimp only
    rw [hmute _ rfl rfl htree]
    split
    · exact ⟨_, rfl⟩
    · rfl

end Completion

section Members

/-- The values that some members give; where a name comes more than once, the last one counts. -/
def laid (ms : List (String × Json)) : Settings :=
  ⟨fun f => ((ms.filter (·.1 = f.title)).getLast?).elim f.standard Prod.snd⟩

theorem title_of_ofTitle? {n : String} (hn : Field.ofTitle? n = some f) : n = f.title := by
  rw [Field.ofTitle?] at hn
  have hf := List.find?_some hn
  exact (of_decide_eq_true hf).symm

theorem foldl_put_last (gs : List (Field × Json)) (s : Settings) (f : Field) :
    (gs.foldl (fun s g => s.put g.1 g.2) s).value f =
      ((gs.filter (·.1 = f)).getLast?).elim (s.value f) Prod.snd := by
  induction gs using List.reverseRecOn with
  | nil => rfl
  | append_singleton gs g ih =>
    rw [List.foldl_append, List.foldl_cons, List.foldl_nil, put_value, ih, List.filter_append]
    by_cases hg : g.1 = f
    · simp [hg]
    · simp [hg, Ne.symm hg]

theorem ofMembers_eq (h : Host) (hms : ∀ m ∈ ms, (Field.ofTitle? m.1).isSome = true) :
    ofMembers h ms = (laid ms).complete h := by
  rw [ofMembers, mapM_ok (g := fun m => ((Field.ofTitle? m.1).getD .name, m.2))]
  · refine congrArg (complete h) (Settings.ext fun f => ?_)
    have hnames : ∀ m ∈ ms, decide ((Field.ofTitle? m.1).getD .name = f) = decide (m.1 = f.title) := by
      intro m hm
      obtain ⟨g, hg⟩ := Option.isSome_iff_exists.1 (hms m hm)
      rw [hg, Option.getD_some, decide_eq_decide, title_of_ofTitle? hg]
      refine ⟨congrArg Field.title, fun hf => ?_⟩
      have hsome := ofTitle?_title g
      rw [hf, ofTitle?_title] at hsome
      exact (Option.some.inj hsome).symm
    rw [foldl_put_last, List.filter_map, List.getLast?_map, laid]
    dsimp only [Function.comp_def]
    rw [List.filter_congr hnames]
    cases (ms.filter (·.1 = f.title)).getLast? <;> rfl
  · intro m hm
    obtain ⟨g, hg⟩ := Option.isSome_iff_exists.1 (hms m hm)
    rw [hg]
    rfl

end Members

section Values

/-- Whether a value is a name that no setting has. -/
def isUnknown : Json → Bool
  | .str n => (Field.ofTitle? n).isNone
  | _ => false

/-- Whether a value is one that settings are made of, or has a name in it that no setting has. -/
def isFit : Json → Bool
  | .obj ms => ms.any (fun m => (Field.ofTitle? m.1).isNone) || (laid ms).isSourced
  | .arr js => Field.Make.texts.accepts (.arr js) && js.any isUnknown
  | .str s => s ≠ ""
  | _ => false

/-- No name of a setting is a single character. -/
theorem ofTitle?_single (c : Char) : Field.ofTitle? c.toString = none := by
  have hlong : ∀ f ∈ Field.all, f.title.length ≠ 1 := by decide
  rw [Field.ofTitle?, List.find?_eq_none]
  intro f hf htitle
  exact hlong f hf (by simp [of_decide_eq_true htitle])

theorem illTyped_of_allTexts {e : Fault} (hjs : Json.allTexts js = .error e) : e = .illTyped := by
  induction js with
  | nil => cases hjs
  | cons j js ih =>
    rw [Json.allTexts, List.mapM_cons, ← Json.allTexts] at hjs
    cases j with
    | str a =>
      cases hrest : Json.allTexts js with
      | error e' =>
        rw [hrest] at hjs
        cases hjs
        exact ih hrest
      | ok ns =>
        rw [hrest] at hjs
        cases hjs
    | _ =>
      cases hjs
      rfl

section Names

variable {ns : List String}

theorem ofJson_unknown (hnames : namesIn j = .ok ns)
    (hns : ns.any (fun n => (Field.ofTitle? n).isNone) = true) : Told (ofJson h j) := by
  obtain ⟨n, hn, hnone⟩ := List.any_eq_true.1 hns
  unfold ofJson
  rw [hnames]
  dsimp only [bind, Except.bind]
  split
  next hnil => exact absurd hnone (List.filter_eq_nil_iff.1 hnil n hn)
  next => exact .inr ⟨_, rfl⟩

theorem filter_of_known (hns : ns.any (fun n => (Field.ofTitle? n).isNone) = false) :
    ns.filter (fun n => (Field.ofTitle? n).isNone) = [] :=
  List.filter_eq_nil_iff.2 fun n hn => by simpa using List.any_eq_false.1 hns n hn

theorem ofJson_members (hns : (ms.map Prod.fst).any (fun n => (Field.ofTitle? n).isNone) = false) :
    ofJson h (.obj ms) = ofMembers h ms := by
  rw [ofJson, namesIn]
  simp only [bind, Except.bind, pure, Except.pure, filter_of_known hns]

/-- Known names alone give nothing. -/
theorem ofJson_known (hj : ∀ ms, j ≠ .obj ms) (hnames : namesIn j = .ok ns)
    (hns : ns.any (fun n => (Field.ofTitle? n).isNone) = false) : ofJson h j = .error .illTyped := by
  rw [ofJson, hnames]
  · simp only [bind, Except.bind, filter_of_known hns]
    rfl
  · exact hj

end Names

theorem ofJson_ends (h : Host) (j : Json) :
    if isFit j then Told (ofJson h j) else ofJson h j = .error .illTyped := by
  cases j with
  | obj ms =>
    rw [isFit]
    have hany : (ms.map Prod.fst).any (fun n => (Field.ofTitle? n).isNone) =
        ms.any fun m => (Field.ofTitle? m.1).isNone := List.any_map
    rw [← hany]
    cases hns : (ms.map Prod.fst).any fun n => (Field.ofTitle? n).isNone with
    | true => exact ofJson_unknown rfl hns
    | false =>
      have hms : ∀ m ∈ ms, (Field.ofTitle? m.1).isSome = true := by
        intro m hm
        simpa [Option.isSome_iff_ne_none] using List.any_eq_false.1 hns _ (List.mem_map_of_mem hm)
      have hends := complete_ends h (laid ms)
      rw [ofJson_members hns, Bool.false_or, ofMembers_eq h hms]
      split at hends
      next hs =>
        obtain ⟨s, hs'⟩ := hends
        rw [if_pos hs]
        exact .inl ⟨s, hs'⟩
      next hs => rwa [if_neg hs]
  | arr js =>
    rw [isFit, Field.Make.accepts]
    cases hjs : Json.allTexts js with
    | error e =>
      obtain rfl := illTyped_of_allTexts hjs
      have hnames : namesIn (.arr js) = .error .illTyped := hjs
      unfold ofJson
      rw [hnames]
      rfl
    | ok ns =>
      obtain rfl := texts_of_allTexts hjs
      have hany : (ns.map Json.str).any isUnknown =
          ns.any fun n => (Field.ofTitle? n).isNone := List.any_map
      rw [hany]
      cases hns : ns.any fun n => (Field.ofTitle? n).isNone with
      | true => exact ofJson_unknown hjs hns
      | false => exact ofJson_known (fun ms => Json.noConfusion) hjs hns
  | str s =>
    have hnames : namesIn (.str s) = .ok (s.toList.map Char.toString) := by
      have hmap := SourceCache.allTexts_map (s.toList.map Char.toString)
      rwa [List.map_map] at hmap
    rw [isFit]
    cases hs : s.toList with
    | nil =>
      obtain rfl := String.toList_eq_nil_iff.1 hs
      rfl
    | cons c cs =>
      have hne : s ≠ "" := fun heq => by simp [heq] at hs
      rw [if_pos (decide_eq_true hne)]
      refine ofJson_unknown hnames ?_
      rw [hs, List.map_cons, List.any_cons, ofTitle?_single]
      rfl
  | _ => rfl

example : isFit (.obj [("source_dir", .int 5), ("vmlinux", .str "v")]) = false ∧
    isFit (.obj [("source_dir", .int 5), ("vmlinux", .str "v"), ("config_file", .str "c")]) = true := by
  decide

end Values

section Files

theorem failed_of_open? {d : Disk} {cwd : Place} {e : DiskError}
    (hopen : d.open? cwd path = .error e) : ∃ why, e = .failed why path := by
  rw [Disk.open?] at hopen
  split at hopen
  · cases hopen
  · cases hopen
    exact ⟨_, rfl⟩
  · cases hopen
    exact ⟨_, rfl⟩

/-- A file that is not read as text is one that can't be opened or holds no text. -/
theorem readText_ends (path : String) (h : Host) (t : Site) :
    (∃ text, readText path h t = (.ok text, t)) ∨ ∃ e, readText path h t = (.error e, t) ∧
      ((∃ d, e = .disk d) ∨ (∃ u, e = .undecodable u) ∨ ∃ m, e = .invalid m) := by
  have hquery := query_apply h t (·.read · path)
  rw [Disk.read] at hquery
  cases hopen : t.disk.open? h.cwd path with
  | ok f =>
    rw [hopen] at hquery
    rw [readText, bind_ok hquery]
    cases Text.decode f.content with
    | ok text => exact .inl ⟨_, rfl⟩
    | error u => exact .inr ⟨_, rfl, .inr (.inl ⟨u, rfl⟩)⟩
  | error d =>
    rw [hopen] at hquery
    obtain ⟨why, rfl⟩ := failed_of_open? hopen
    refine .inr ⟨_, bind_error hquery, ?_⟩
    cases why with
    | nullByte => exact .inr (.inr ⟨_, rfl⟩)
    | _ => exact .inl ⟨_, rfl⟩

/-- A text in a file is refused for its own sake, unless it is nested too deeply. -/
theorem readJson_ends (path : String) (h : Host) (t : Site) :
    (∃ why, readJson path h t = (.ok (.error why), t) ∧
      ∀ text, readText path h t = (.ok text, t) → ∃ f, Json.parse text = .error f ∧ f ≠ .tooDeep) ∨
    (∃ text, readText path h t = (.ok text, t) ∧ Json.parse text = .error .tooDeep ∧
      readJson path h t = (.error .tooDeep, t)) ∨
    ∃ text j, readText path h t = (.ok text, t) ∧ Json.parse text = .ok j ∧
      readJson path h t = (.ok (.ok j), t) := by
  rw [readJson]
  rcases readText_ends path h t with ⟨text, htext⟩ | ⟨e, htext, he⟩
  · rw [bind_ok (attempt_of htext)]
    dsimp only
    cases hparse : Json.parse text with
    | ok j => exact .inr (.inr ⟨text, j, htext, hparse, rfl⟩)
    | error f =>
      have hflaw : f ≠ .tooDeep → ∀ text', readText path h t = (.ok text', t) →
          ∃ f, Json.parse text' = .error f ∧ f ≠ .tooDeep := by
        intro hf text' htext'
        obtain rfl : text = text' := Except.ok.inj (Prod.mk.inj (htext.symm.trans htext')).1
        exact ⟨f, hparse, hf⟩
      cases f with
      | malformed => exact .inl ⟨_, rfl, hflaw (by simp)⟩
      | tooLong digits => exact .inl ⟨_, rfl, hflaw (by simp)⟩
      | tooDeep => exact .inr (.inl ⟨text, htext, hparse, rfl⟩)
  · rw [bind_ok (attempt_of htext)]
    have hnone : ∀ text, readText path h t = (.ok text, t) →
        ∃ f, Json.parse text = .error f ∧ f ≠ .tooDeep := by
      intro text htext'
      cases htext.symm.trans htext'
    rcases he with ⟨d, rfl⟩ | ⟨u, rfl⟩ | ⟨m, rfl⟩
    · exact .inl ⟨_, rfl, hnone⟩
    · exact .inl ⟨_, rfl, hnone⟩
    · exact .inl ⟨_, rfl, hnone⟩

/-- Loading ends with settings or with a configuration that is refused, but for a text that is nested too
deeply and a value that is not fit. -/
theorem load_ends (path : String) (h : Host) (t : Site) :
    ∃ r, load path h t = (r, t) ∧ (Told r ∨ r = .error .tooDeep ∨ r = .error .illTyped) ∧
      (r = .error .tooDeep ↔ ∃ text, readText path h t = (.ok text, t) ∧
        Json.parse text = .error .tooDeep ∧ Json.deepest < Json.openings text.toList) ∧
      (r = .error .illTyped ↔ ∃ text j, readText path h t = (.ok text, t) ∧
        Json.parse text = .ok j ∧ isFit j = false) := by
  have same : ∀ {text text' : String}, readText path h t = (.ok text, t) →
      readText path h t = (.ok text', t) → text = text' := fun htext htext' =>
    Except.ok.inj (Prod.mk.inj (htext.symm.trans htext')).1
  rw [load]
  rcases readJson_ends path h t with ⟨why, hread, hno⟩ | ⟨text, htext, hparse, hread⟩ |
    ⟨text, j, htext, hparse, hread⟩
  · rw [bind_ok hread]
    have hsound : Told (.error (.failure (.configuration ("error loading settings file " ++ path ++
        ": " ++ why))) : Except Fault Settings) := .inr ⟨_, rfl⟩
    refine ⟨_, rfl, .inl hsound, iff_of_false hsound.sound.1 ?_, iff_of_false hsound.sound.2 ?_⟩
    · rintro ⟨text, htext, hparse, -⟩
      obtain ⟨f, hf, hne⟩ := hno text htext
      exact absurd (Except.error.inj (hf.symm.trans hparse)) hne
    · rintro ⟨text, j, htext, hparse, -⟩
      obtain ⟨f, hf, -⟩ := hno text htext
      cases hf.symm.trans hparse
  · rw [bind_error hread]
    refine ⟨_, rfl, .inr (.inl rfl),
      iff_of_true rfl ⟨text, htext, hparse, Json.openings_of_parse hparse⟩,
      iff_of_false (by simp) ?_⟩
    rintro ⟨text', j, htext', hparse', -⟩
    rw [← same htext htext', hparse] at hparse'
    cases hparse'
  · rw [bind_ok hread]
    dsimp only
    rw [bind_ok (read_apply h t), ofExcept_apply]
    have hends := ofJson_ends h j
    have hdeep : ¬ ∃ text, readText path h t = (.ok text, t) ∧
        Json.parse text = .error .tooDeep ∧ Json.deepest < Json.openings text.toList := by
      rintro ⟨text', htext', hparse', -⟩
      rw [← same htext htext', hparse] at hparse'
      cases hparse'
    split at hends
    next hfit =>
      refine ⟨_, rfl, .inl hends, iff_of_false hends.sound.1 hdeep,
        iff_of_false hends.sound.2 ?_⟩
      rintro ⟨text', j', htext', hparse', hunfit⟩
      rw [← same htext htext', hparse] at hparse'
      rw [← Except.ok.inj hparse', hfit] at hunfit
      cases hunfit
    next hfit =>
      refine ⟨_, rfl, .inr (.inr hends), iff_of_false (by simp [hends]) hdeep,
        iff_of_true hends ⟨text, j, htext, hparse, by simpa using hfit⟩⟩

end Files

end Hotpatch.Settings
