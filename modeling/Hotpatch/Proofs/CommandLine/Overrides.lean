import Hotpatch.CommandLine
import Hotpatch.Proofs.CommandLine.Parsed
import Hotpatch.Proofs.Settings

/-! Options that go over saved settings. Each option is about one setting of its own, except that a source
tree and a version displace each other, and that a source tree brings a configuration and a kernel
image along where there are none. Settings that were saved with those of another tree keep them: this
is all that tells options over saved settings from the options of both command lines at once. -/

namespace Hotpatch

open Json Settings

/-- Gives a setting a value, if there is one. -/
def Settings.over (s : Settings) (f : Field) : Option Json → Settings
  | some j => s.put f j
  | none => s

theorem Settings.over_value (s : Settings) (f g : Field) (o : Option Json) :
    (s.over f o).value g = if g = f then o.getD (s.value g) else s.value g := by
  cases o with
  | none => exact (ite_self _).symm
  | some j => rfl

namespace CommandLine

section Choices

def text? (o : Option String) : Option Json := (given o).map .str

def list? (vs : List (Option String)) : Option Json :=
  if vs.isEmpty then none else some (.arr (vs.map item))

def flag? (b : Bool) : Option Json := if b then some (.bool true) else none

/-- What the arguments give a setting on its own. -/
def choice (a : Arguments) : Field → Option Json
  | .sourceDir => (text? a.sourcedir).or ((given a.targetVersion).map fun _ => .null)
  | .targetVersion => ((given a.sourcedir).map fun _ => .null).or (text? a.targetVersion)
  | .patches => list? (a.patches.map some)
  | .configFile => text? a.config
  | .vmlinux => text? a.vmlinux
  | .outputDir => text? a.output
  | .name => text? a.name
  | .arch => none
  | .jobs => (a.jobs.filter (0 < ·)).map .int
  | .targets => list? a.targets
  | .cacheDir => text? a.cacheDir
  | .ootModule => text? a.ootModule
  | .extraLinkFlags => list? a.ldFlags
  | .extraMakeArgs => list? a.makeArgs
  | .diffCompiler => text? a.diffCompiler
  | .moduleTool => text? a.moduleTool
  | .debug => flag? a.debug
  | .skipCleanup => flag? a.skipCleanup
  | .skipGccCheck => flag? a.skipGccCheck
  | .fetchCommand => (given a.fetchCommand).map fun c => ofTexts (Text.words c)

/-- The file of a source tree that a setting stands for unless it is given. -/
def fileOf? : Field → Option String
  | .configFile => some ".config"
  | .vmlinux => some "vmlinux"
  | _ => none

/-- What becomes of a setting's value under the arguments. -/
def overValue (a : Arguments) (f : Field) (j : Json) : Json :=
  let j := (choice a f).getD j
  match given a.sourcedir, fileOf? f with
  | some tree, some file => if j.isNull then .str (under tree file) else j
  | _, _ => j

/-- What becomes of all settings. -/
def withOptions (a : Arguments) (s : Settings) : Settings := ⟨fun f => overValue a f (s.value f)⟩

variable {a a₁ a₂ : Arguments} {s : Settings} {f : Field} {j : Json} {file : String}

theorem withOptions_value (a : Arguments) (s : Settings) (f : Field) :
    (withOptions a s).value f = overValue a f (s.value f) := rfl

theorem overText_eq (o : Option String) (f : Field) (s : Settings) :
    overText o f s = s.over f (text? o) := by
  rw [overText, text?]
  cases given o <;> rfl

theorem overList_eq (vs : List (Option String)) (f : Field) (s : Settings) :
    overList vs f s = s.over f (list? vs) := by
  rw [overList, list?]
  split <;> rfl

theorem overFlag_eq (b : Bool) (f : Field) (s : Settings) :
    overFlag b f s = s.over f (flag? b) := by
  cases b <;> rfl

theorem overFetch_eq (a : Arguments) (s : Settings) :
    overFetch a s = s.over .fetchCommand (choice a .fetchCommand) := by
  rw [overFetch, choice]
  cases given a.fetchCommand <;> rfl

theorem overJobs_eq {n : Int} (hn : a.jobs = some n) (s : Settings) :
    overJobs a s = .ok (s.over .jobs (choice a .jobs)) := by
  rw [overJobs, choice, hn]
  by_cases hpos : 0 < n <;> simp [hpos, Option.filter, Settings.over]

theorem overVersion_eq (a : Arguments) (s : Settings) :
    overVersion a s = (s.over .targetVersion (text? a.targetVersion)).over .sourceDir
      ((given a.targetVersion).map fun _ => .null) := by
  rw [overVersion, text?]
  cases given a.targetVersion <;> rfl

theorem overSource_none (ha : given a.sourcedir = none) (s : Settings) : overSource a s = .ok s := by
  rw [overSource, ha]

theorem overSource_some {tree : String} (ha : given a.sourcedir = some tree) (s : Settings) :
    overSource a s = .ok ((((s.put .targetVersion .null).put .sourceDir (.str tree)).fill
      .configFile (.str (under tree ".config"))).fill .vmlinux (.str (under tree "vmlinux"))) := by
  rw [overSource, ha]
  exact useSource_str _ tree

/-- All options at once, setting by setting. -/
theorem overAll_eq {n : Int} (hn : a.jobs = some n) (s : Settings) :
    overAll a s = .ok (withOptions a s) := by
  rw [overAll, overVersion_eq, overList_eq, overText_eq, overText_eq]
  cases hs : given a.sourcedir with
  | none =>
    rw [overSource_none hs]
    simp only [bind, Except.bind, pure, Except.pure, overJobs_eq hn, Except.ok.injEq]
    ext f
    simp only [overFlag_eq, overList_eq, overText_eq, overFetch_eq, over_value]
    cases f <;> simp [withOptions_value, overValue, choice, hs, text?]
  | some tree =>
    rw [overSource_some hs]
    simp only [bind, Except.bind, pure, Except.pure, overJobs_eq hn, Except.ok.injEq]
    ext f
    simp only [overFlag_eq, overList_eq, overText_eq, overFetch_eq, over_value, put_value, fill_value]
    cases f <;> simp [withOptions_value, overValue, choice, hs, text?, fileOf?]
    all_goals rfl

theorem overAll_none (hn : a.jobs = none) (s : Settings) : overAll a s = .error .illTyped := by
  rw [overAll, overSource]
  split
  · rw [useSource_str]
    simp only [bind, Except.bind, overJobs, hn]
  · simp only [bind, Except.bind, overJobs, hn]

theorem choice_isNull (hf : fileOf? f = some file) (hj : choice a f = some j) : j.isNull = false := by
  have htext : ∀ o, text? o = some j → j.isNull = false := by
    intro o ho
    obtain ⟨v, -, rfl⟩ := Option.map_eq_some_iff.1 ho
    rfl
  cases f
  case configFile => exact htext _ hj
  case vmlinux => exact htext _ hj
  all_goals cases hf

theorem overValue_plain (hf : fileOf? f = none) (a : Arguments) (j : Json) :
    overValue a f j = (choice a f).getD j := by
  rw [overValue, hf]
  cases given a.sourcedir <;> rfl

theorem overValue_chosen (hf : fileOf? f = some file) {v : Json} (hv : choice a f = some v)
    (j : Json) : overValue a f j = v := by
  have hnull := choice_isNull hf hv
  rw [overValue, hv, hf]
  cases given a.sourcedir with
  | none => rfl
  | some tree => simp [hnull]

theorem overValue_open (hf : fileOf? f = some file) (hv : choice a f = none) (j : Json) :
    overValue a f j = match given a.sourcedir with
      | some tree => if j.isNull then .str (under tree file) else j
      | none => j := by
  rw [overValue, hv, hf]
  cases given a.sourcedir <;> rfl

end Choices

section Start

variable {h : Host} {a : Arguments} {f : Field}

/-- The settings that options go over where no settings file is named. -/
def start (h : Host) : Settings :=
  (blank.put .arch (.str h.machine)).put .jobs (.int (h.cpus.getD 1))

theorem complete_blank (h : Host) : complete h blank = .ok (start h) := rfl

theorem settings_start {t : Site} (ha : given a.settings = none) :
    settings a h t = (overAll a (start h), t) := by
  rw [settings, ha]
  dsimp only
  rw [Act.host, Act.bind_ok (Act.read_apply h t), complete_blank,
    Act.bind_ok (Act.ofExcept_apply h t _), Act.ofExcept_apply]

theorem settings_load {t t' : Site} {file : String} {s : Settings}
    (ha : given a.settings = some file) (hload : load file h t = (.ok s, t')) :
    settings a h t = (overAll a s, t') := by
  rw [settings, ha]
  dsimp only
  rw [Act.bind_ok hload, Act.ofExcept_apply]

end Start

section Saved

variable {h : Host} {a : Arguments} {f : Field} {j : Json} {depth : Nat}

theorem plain_ofTexts (ss : List String) : IsPlain (depth + 1) (ofTexts ss) := by
  refine .arr fun j hj => ?_
  obtain ⟨s, -, rfl⟩ := List.mem_map.1 hj
  exact .str s

theorem choice_plain (ha : ∀ n ∈ a.jobs, n.natAbs < 10 ^ longest) (hj : choice a f = some j) :
    IsPlain (depth + 2) j := by
  have htext : ∀ o, text? o = some j → IsPlain (depth + 2) j := by
    intro o ho
    obtain ⟨v, -, rfl⟩ := Option.map_eq_some_iff.1 ho
    exact .str v
  have hnull : ∀ o : Option String, (o.map fun _ => Json.null) = some j → IsPlain (depth + 2) j := by
    intro o ho
    obtain ⟨v, -, rfl⟩ := Option.map_eq_some_iff.1 ho
    exact .null
  have hlist : ∀ vs, list? vs = some j → IsPlain (depth + 2) j := by
    intro vs hvs
    rw [list?] at hvs
    split at hvs
    · cases hvs
    · cases hvs
      refine .arr fun j hj => ?_
      obtain ⟨v, -, rfl⟩ := List.mem_map.1 hj
      cases v with
      | none => exact .arr nofun
      | some v => exact .str v
  have hflag : ∀ b, flag? b = some j → IsPlain (depth + 2) j := by
    intro b hb
    rw [flag?] at hb
    split at hb
    · cases hb
      exact .bool true
    · cases hb
  cases f
  case sourceDir =>
    rcases Option.or_eq_some_iff.1 hj with hj | ⟨-, hj⟩
    · exact htext _ hj
    · exact hnull _ hj
  case targetVersion =>
    rcases Option.or_eq_some_iff.1 hj with hj | ⟨-, hj⟩
    · exact hnull _ hj
    · exact htext _ hj
  case patches => exact hlist _ hj
  case targets => exact hlist _ hj
  case extraLinkFlags => exact hlist _ hj
  case extraMakeArgs => exact hlist _ hj
  case arch => cases hj
  case jobs =>
    obtain ⟨n, hn, rfl⟩ := Option.map_eq_some_iff.1 hj
    exact .int (ha n (Option.eq_some_of_filter_eq_some hn))
  case debug => exact hflag _ hj
  case skipCleanup => exact hflag _ hj
  case skipGccCheck => exact hflag _ hj
  case fetchCommand =>
    obtain ⟨c, -, rfl⟩ := Option.map_eq_some_iff.1 hj
    exact plain_ofTexts _
  all_goals exact htext _ hj

theorem start_plain (hcpus : (h.cpus.getD 1).natAbs < 10 ^ longest) (f : Field) :
    IsPlain (depth + 2) ((start h).value f) := by
  cases f
  case arch => exact .str _
  case jobs => exact .int hcpus
  case targets => exact plain_ofTexts _
  case outputDir | cacheDir | diffCompiler | moduleTool => exact .str _
  case debug | skipCleanup | skipGccCheck => exact .bool false
  case patches | extraLinkFlags | extraMakeArgs | fetchCommand => exact .arr nofun
  all_goals exact .null

/-- Only what the arguments give, and the path of a file, take the place of a value. -/
theorem overValue_keeps {P : Json → Prop} (htext : ∀ text, P (.str text))
    (hchoice : ∀ v, choice a f = some v → P v) (hj : P j) : P (overValue a f j) := by
  have hchosen : P ((choice a f).getD j) := by
    cases hc : choice a f with
    | none => exact hj
    | some v => exact hchoice v hc
  rw [overValue]
  split
  · split
    · exact htext _
    · exact hchosen
  · exact hchosen

theorem overValue_isPlain (ha : ∀ n ∈ a.jobs, n.natAbs < 10 ^ longest)
    (hj : IsPlain (depth + 2) j) : IsPlain (depth + 2) (overValue a f j) :=
  overValue_keeps .str (fun _ => choice_plain ha) hj

/-- A setting that is given stays given under the options. -/
theorem overValue_given {file : String} (hf : fileOf? f = some file) (hj : j.isNull = false) :
    (overValue a f j).isNull = false := by
  cases hc : choice a f with
  | some v => rw [overValue_chosen hf hc, choice_isNull hf hc]
  | none =>
    rw [overValue_open hf hc]
    cases given a.sourcedir with
    | none => exact hj
    | some tree => simp [hj]

/-- Options leave nothing to fill in where there was nothing: where there is a source tree, it has told
the files that weren't given. -/
theorem withOptions_complete {s : Settings} (hs : IsComplete h s) (a : Arguments) :
    IsComplete h (withOptions a s) where
  arch := by
    rw [withOptions_value, overValue_plain rfl]
    exact hs.arch
  jobs := by
    intro hzero
    rw [withOptions_value, overValue_plain rfl] at hzero ⊢
    cases hc : choice a .jobs with
    | none =>
      rw [hc] at hzero
      exact hs.jobs hzero
    | some j =>
      obtain ⟨n, hn, rfl⟩ := Option.map_eq_some_iff.1 hc
      have hpos : 0 < n := by simpa using (Option.filter_eq_some_iff.1 hn).2
      rw [hc, Option.getD_some, Json.isZero, decide_eq_true_eq] at hzero
      omega
  tree := by
    have hfile : ∀ {f file tree}, fileOf? f = some file → given a.sourcedir = some tree →
        ((withOptions a s).value f).isNull = false := by
      intro f file tree hf htree
      rw [withOptions_value]
      cases hc : choice a f with
      | some v => rw [overValue_chosen hf hc, choice_isNull hf hc]
      | none =>
        rw [overValue_open hf hc, htree]
        dsimp only
        split
        · rfl
        · next hnull => exact Bool.eq_false_iff.2 hnull
    rw [withOptions_value, overValue_plain rfl, choice, text?]
    cases htree : given a.sourcedir with
    | some tree => exact .inr ⟨⟨tree, rfl⟩, hfile rfl htree, hfile rfl htree⟩
    | none =>
      cases given a.targetVersion with
      | some version => exact .inl rfl
      | none =>
        obtain hnull | ⟨hdir, hconfig, himage⟩ := hs.tree
        · exact .inl hnull
        · exact .inr ⟨hdir, overValue_given rfl hconfig, overValue_given rfl himage⟩

end Saved

section Merge

variable {h : Host} {a a₁ a₂ : Arguments} {f : Field} {j : Json} {file : String}

/-- Whether the arguments say where the sources come from. -/
def givesSource (a : Arguments) : Bool :=
  (given a.sourcedir).isSome || (given a.targetVersion).isSome

/-- The arguments of two command lines, option by option: the second one's where it gives one. A source
option of the second one displaces both of the first. -/
def merge (a₁ a₂ : Arguments) : Arguments where
  patches := if a₂.patches.isEmpty then a₁.patches else a₂.patches
  sourcedir := if givesSource a₂ then a₂.sourcedir else a₁.sourcedir
  targetVersion := if givesSource a₂ then a₂.targetVersion else a₁.targetVersion
  config := (given a₂.config).or a₁.config
  vmlinux := (given a₂.vmlinux).or a₁.vmlinux
  jobs := a₂.jobs.bind fun n => if 0 < n then some n else a₁.jobs
  targets := if a₂.targets.isEmpty then a₁.targets else a₂.targets
  name := (given a₂.name).or a₁.name
  output := (given a₂.output).or a₁.output
  ootModule := (given a₂.ootModule).or a₁.ootModule
  cacheDir := (given a₂.cacheDir).or a₁.cacheDir
  fetchCommand := (given a₂.fetchCommand).or a₁.fetchCommand
  diffCompiler := (given a₂.diffCompiler).or a₁.diffCompiler
  moduleTool := (given a₂.moduleTool).or a₁.moduleTool
  ldFlags := if a₂.ldFlags.isEmpty then a₁.ldFlags else a₂.ldFlags
  makeArgs := if a₂.makeArgs.isEmpty then a₁.makeArgs else a₂.makeArgs
  debug := a₁.debug || a₂.debug
  skipCleanup := a₁.skipCleanup || a₂.skipCleanup
  skipGccCheck := a₁.skipGccCheck || a₂.skipGccCheck
  settings := none
  saveSettings := (given a₂.saveSettings).or a₁.saveSettings

theorem merge_jobs (a₁ a₂ : Arguments) :
    (merge a₁ a₂).jobs = a₂.jobs.bind fun n => if 0 < n then some n else a₁.jobs := rfl

theorem given_or (o₁ o₂ : Option String) : given ((given o₂).or o₁) = (given o₂).or (given o₁) := by
  rw [given, given, given]
  cases o₂ with
  | none => rfl
  | some v => by_cases hv : v = "" <;> simp [Option.filter, hv]

theorem givesSource_eq_false (ha : givesSource a = false) :
    given a.sourcedir = none ∧ given a.targetVersion = none := by
  rw [givesSource, Bool.or_eq_false_iff] at ha
  simpa using ha

/-- Where a later option says where the sources come from, it alone does. -/
theorem merge_source (ha : givesSource a₂ = true) (a₁ : Arguments) :
    (merge a₁ a₂).sourcedir = a₂.sourcedir ∧ (merge a₁ a₂).targetVersion = a₂.targetVersion :=
  ⟨if_pos ha, if_pos ha⟩

theorem merge_source_kept (ha : givesSource a₂ = false) (a₁ : Arguments) :
    (merge a₁ a₂).sourcedir = a₁.sourcedir ∧ (merge a₁ a₂).targetVersion = a₁.targetVersion :=
  ⟨if_neg (by simp [ha]), if_neg (by simp [ha])⟩

theorem choice_source (ha : givesSource a = true) (hf : f = .sourceDir ∨ f = .targetVersion) :
    ∃ j, choice a f = some j := by
  rw [givesSource, Bool.or_eq_true, Option.isSome_iff_exists, Option.isSome_iff_exists] at ha
  rcases hf with rfl | rfl <;> rcases ha with ⟨v, hv⟩ | ⟨v, hv⟩ <;>
    cases hs : given a.sourcedir <;> simp [choice, text?, hv, hs]

theorem choice_merge_source (a₁ a₂ : Arguments) (hf : f = .sourceDir ∨ f = .targetVersion) :
    choice (merge a₁ a₂) f = (choice a₂ f).or (choice a₁ f) := by
  cases hg : givesSource a₂ with
  | true =>
    obtain ⟨hs, hv⟩ := merge_source hg a₁
    obtain ⟨j, hj⟩ := choice_source hg hf
    have hsame : choice (merge a₁ a₂) f = choice a₂ f := by
      rcases hf with rfl | rfl <;> rw [choice, choice, hs, hv]
    rw [hsame, hj]
    rfl
  | false =>
    obtain ⟨hs, hv⟩ := merge_source_kept hg a₁
    obtain ⟨hs', hv'⟩ := givesSource_eq_false hg
    have hsame : choice (merge a₁ a₂) f = choice a₁ f := by
      rcases hf with rfl | rfl <;> rw [choice, choice, hs, hv]
    have hnone : choice a₂ f = none := by
      rcases hf with rfl | rfl <;> rw [choice, text?, hs', hv'] <;> rfl
    rw [hsame, hnone]
    rfl

theorem choice_merge {n : Int} (hn : a₂.jobs = some n) (a₁ : Arguments) (f : Field) :
    choice (merge a₁ a₂) f = (choice a₂ f).or (choice a₁ f) := by
  have htext : ∀ o₁ o₂, text? ((given o₂).or o₁) = (text? o₂).or (text? o₁) := by
    intro o₁ o₂
    rw [text?, given_or, Option.map_or]
    rfl
  have hlist : ∀ vs₁ vs₂, list? (if vs₂.isEmpty then vs₁ else vs₂) = (list? vs₂).or (list? vs₁) := by
    intro vs₁ vs₂
    cases vs₂ <;> rfl
  have hflag : ∀ b₁ b₂, flag? (b₁ || b₂) = (flag? b₂).or (flag? b₁) := by
    intro b₁ b₂
    cases b₁ <;> cases b₂ <;> rfl
  cases f
  case arch => rfl
  case patches =>
    have hpatches := hlist (a₁.patches.map some) (a₂.patches.map some)
    rw [List.isEmpty_map, ← apply_ite (List.map some)] at hpatches
    exact hpatches
  case targets | extraLinkFlags | extraMakeArgs => exact hlist _ _
  case debug | skipCleanup | skipGccCheck => exact hflag _ _
  case fetchCommand =>
    simp only [choice, merge, given_or, Option.map_or]
  case jobs =>
    simp only [choice, merge, hn, Option.bind_some]
    by_cases hpos : 0 < n <;> simp [hpos, Option.filter]
  case sourceDir => exact choice_merge_source a₁ a₂ (.inl rfl)
  case targetVersion => exact choice_merge_source a₁ a₂ (.inr rfl)
  all_goals exact htext _ _

/-- The file of a source tree that a setting keeps although a later option displaces the tree. -/
def outdated (a₁ a₂ : Arguments) (f : Field) : Option String :=
  if givesSource a₂ && (choice a₁ f).isNone && (choice a₂ f).isNone then
    (given a₁.sourcedir).bind fun tree => (fileOf? f).map (under tree)
  else none

/-- Settings with the files of the displaced source tree. -/
def withOutdated (a₁ a₂ : Arguments) (s : Settings) : Settings :=
  ⟨fun f => ((outdated a₁ a₂ f).map .str).getD (s.value f)⟩

theorem withOutdated_value (a₁ a₂ : Arguments) (s : Settings) (f : Field) :
    (withOutdated a₁ a₂ s).value f = ((outdated a₁ a₂ f).map .str).getD (s.value f) := rfl

theorem overValue_merge {n : Int} (hn : a₂.jobs = some n) (a₁ : Arguments) (f : Field) (j : Json)
    (hj : ∀ file, fileOf? f = some file → j = .null) :
    overValue a₂ f (overValue a₁ f j) =
      ((outdated a₁ a₂ f).map .str).getD (overValue (merge a₁ a₂) f j) := by
  have hchoice := choice_merge hn a₁ f
  cases hf : fileOf? f with
  | none =>
    have hnone : outdated a₁ a₂ f = none := by
      rw [outdated, hf]
      cases given a₁.sourcedir <;> simp
    rw [overValue_plain hf, overValue_plain hf, overValue_plain hf, hchoice, hnone]
    cases choice a₂ f <;> cases choice a₁ f <;> rfl
  | some file =>
    cases h₂ : choice a₂ f with
    | some v =>
      rw [h₂] at hchoice
      rw [overValue_chosen hf h₂, overValue_chosen hf hchoice, outdated, h₂]
      simp
    | none =>
      cases h₁ : choice a₁ f with
      | some v =>
        rw [h₂, h₁] at hchoice
        rw [overValue_chosen hf h₁, overValue_chosen hf hchoice, overValue_open hf h₂, outdated, h₁]
        simp [choice_isNull hf h₁]
        cases given a₂.sourcedir <;> rfl
      | none =>
        rw [h₂, h₁] at hchoice
        rw [overValue_open hf h₂, overValue_open hf h₁, overValue_open hf hchoice, outdated, h₁, h₂,
          hf, hj file hf]
        cases hg : givesSource a₂ with
        | true =>
          rw [(merge_source hg a₁).1]
          cases given a₁.sourcedir <;> cases given a₂.sourcedir <;> simp [Json.isNull]
        | false =>
          rw [(merge_source_kept hg a₁).1, (givesSource_eq_false hg).1]
          cases given a₁.sourcedir <;> simp [Json.isNull]

end Merge

section Overrides

variable {h : Host} {a a₁ a₂ : Arguments} {file : String} {s : Settings}

theorem start_file (h : Host) {f : Field} (hf : fileOf? f = some file) : (start h).value f = .null := by
  cases f
  case configFile | vmlinux => rfl
  all_goals cases hf

/-- Options over what other options left are those of both command lines at once, but for the files of
a source tree that the later ones displace. -/
theorem withOptions_merge {n : Int} (hn : a₂.jobs = some n) (h : Host) (a₁ : Arguments) :
    withOptions a₂ (withOptions a₁ (start h)) =
      withOutdated a₁ a₂ (withOptions (merge a₁ a₂) (start h)) := by
  ext f
  exact overValue_merge hn a₁ f _ fun file hf => start_file h hf

/-- A file that isn't given is looked for in the source tree that was selected. -/
theorem withOptions_file {f : Field} {tree : String} (hf : fileOf? f = some file)
    (ha : choice a f = none) (htree : (withOptions a (start h)).value .sourceDir = .str tree) :
    (withOptions a (start h)).value f = .str (under tree file) := by
  have hgiven : given a.sourcedir = some tree := by
    rw [withOptions_value, overValue_plain rfl, choice, text?] at htree
    cases hs : given a.sourcedir with
    | some v =>
      rw [hs] at htree
      cases htree
      rfl
    | none =>
      rw [hs] at htree
      cases hv : given a.targetVersion <;> rw [hv] at htree <;> cases htree
  rw [withOptions_value, overValue_open hf ha, hgiven, start_file h hf]
  rfl

/-- Settings of one command line that are saved, then loaded with the options of another one over them,
are the settings of both command lines at once, apart from outdated files: where the later command
line says where the sources come from, a configuration and a kernel image that neither of them gives
are still those of the earlier source tree. Any other file that isn't given is that of the source
tree finally selected. Empty texts and job counts below one are none that are given, and the settings
file may be no log file. -/
theorem settings_of_saved {argv : List String} {t u u' : Site} (hparse : parse argv = .ok a₁)
    (hnone : given a₁.settings = none) (hfile : given a₂.settings = some file)
    (hcpus : (h.cpus.getD 1).natAbs < 10 ^ longest)
    (hsinks : ∀ n, .file (Place.of h.cwd file) n ∉ u.sinks)
    (hfirst : (settings a₁ h t).1 = .ok s) (hsave : s.save file h u = (.ok (), u')) (v : Site) :
    (settings a₂ h u').1 = (settings (merge a₁ a₂) h v).1.map (withOutdated a₁ a₂) ∧
      ∀ s', (settings a₂ h u').1 = .ok s' → ∀ f name tree, fileOf? f = some name →
        choice a₁ f = none → choice a₂ f = none → s'.value .sourceDir = .str tree →
          s'.value f = .str ((outdated a₁ a₂ f).getD (under tree name)) := by
  rw [settings_start hnone] at hfirst
  obtain ⟨m, hm⟩ : ∃ m, a₁.jobs = some m := by
    refine Option.ne_none_iff_exists'.1 fun hno => ?_
    rw [overAll_none hno] at hfirst
    cases hfirst
  rw [overAll_eq hm] at hfirst
  cases hfirst
  have hjobs : ∀ n ∈ a₁.jobs, n.natAbs < 10 ^ longest := by
    have hdigits : longest = Text.mostDigits := rfl
    rw [hdigits]
    exact jobs_lt hparse
  have hload : load file h u' = (.ok (withOptions a₁ (start h)), u') :=
    load_save (fun f => overValue_isPlain hjobs (start_plain hcpus f))
      (withOptions_complete (isComplete_of_complete (complete_blank h)) a₁) hsinks hsave
  rw [settings_load hfile hload, settings_start (a := merge a₁ a₂) rfl]
  cases hn : a₂.jobs with
  | none =>
    have hnone : (merge a₁ a₂).jobs = none := by rw [merge_jobs, hn]; rfl
    rw [overAll_none hn, overAll_none hnone]
    exact ⟨rfl, nofun⟩
  | some n =>
    obtain ⟨k, hk⟩ : ∃ k, (merge a₁ a₂).jobs = some k := by
      rw [merge_jobs, hn, hm, Option.bind_some]
      split <;> exact ⟨_, rfl⟩
    rw [overAll_eq hn, overAll_eq hk, withOptions_merge hn]
    refine ⟨rfl, ?_⟩
    rintro s' ⟨⟩ f name tree hf h₁ h₂ htree
    have hchoice : choice (merge a₁ a₂) f = none := by rw [choice_merge hn, h₁, h₂]; rfl
    have hfree : outdated a₁ a₂ .sourceDir = none := by
      rw [outdated]
      cases given a₁.sourcedir <;> simp [fileOf?]
    rw [withOutdated_value, hfree] at htree
    rw [withOutdated_value, withOptions_file hf hchoice htree]
    cases outdated a₁ a₂ f <;> rfl

/-- A source tree that displaces another one after the settings were saved. -/
theorem settings_of_saved_displaced :
    let first : List String := ["-s", "linux-a", "fix.patch"]
    let later : Arguments :=
      { Arguments.none with sourcedir := some "linux-b", settings := some "lp.json" }
    let h := SourceCache.sampleHost
    let t := SourceCache.sampleSite
    ∃ a₁ s u', parse first = .ok a₁ ∧ given a₁.settings = none ∧
      given later.settings = some "lp.json" ∧ (h.cpus.getD 1).natAbs < 10 ^ longest ∧
      (∀ n, .file (Place.of h.cwd "lp.json") n ∉ t.sinks) ∧ (settings a₁ h t).1 = .ok s ∧
      s.save "lp.json" h t = (.ok (), u') ∧
      outdated a₁ later .vmlinux = some "linux-a/vmlinux" ∧
      (settings later h u').1 = (settings (merge a₁ later) h t).1.map (withOutdated a₁ later) := by
  intro first later h t
  let a₁ : Arguments := { Arguments.none with patches := ["fix.patch"], sourcedir := some "linux-a" }
  have hparse : parse first = .ok a₁ := by rfl
  have hfirst : (settings a₁ h t).1 = .ok (withOptions a₁ (start h)) := by
    rw [settings_start rfl, overAll_eq rfl]
  have hcut : (withOptions { Arguments.none with patches := ["fix.patch"], sourcedir := some "linux-a" }
      (start SourceCache.sampleHost)).toJson.cut? = none := by decide +kernel
  have hsave : ((withOptions a₁ (start h)).save "lp.json" h t).1 = .ok () := by
    rw [save, hcut]
    rfl
  have hcpus : (h.cpus.getD 1).natAbs < 10 ^ longest := Nat.one_lt_pow (by decide) (by decide)
  have hsinks : ∀ n, .file (Place.of h.cwd "lp.json") n ∉ t.sinks := fun _ => List.not_mem_nil
  have hpair : (withOptions a₁ (start h)).save "lp.json" h t = (.ok (), _) := Prod.ext hsave rfl
  have hfile : given later.settings = some "lp.json" := rfl
  exact ⟨a₁, _, _, hparse, rfl, hfile, hcpus, hsinks, hfirst, hpair, by decide +kernel,
    (settings_of_saved hparse rfl hfile hcpus hsinks hfirst hpair t).1⟩

end Overrides

end CommandLine

end Hotpatch
