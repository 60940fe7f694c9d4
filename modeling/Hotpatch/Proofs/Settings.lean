import Hotpatch.Proofs.Build.SourceCache
import Hotpatch.Proofs.Json.Roundtrip
import Hotpatch.Settings.File

/-! Settings that are saved and loaded again. A file that was written holds every setting by its name, so
loading it gives back the settings, provided that there is nothing left to fill in and that their
values come back from JSON text. -/

namespace Hotpatch.Settings

open Act Json

variable {h : Host} {s s' : Settings} {f g : Field} {j : Json}

section Values

@[ext] theorem ext (hs : ∀ f, s.value f = s'.value f) : s = s' := by
  obtain ⟨v⟩ := s
  obtain ⟨v'⟩ := s'
  rw [mk.injEq]
  exact funext hs

theorem put_value (s : Settings) (f g : Field) (j : Json) :
    (s.put f j).value g = if g = f then j else s.value g := rfl

theorem put_self (s : Settings) (f : Field) : s.put f (s.value f) = s := by
  ext g
  rw [put_value]
  split
  next hg => rw [hg]
  next => rfl

theorem fill_value (s : Settings) (f g : Field) (j : Json) :
    (s.fill f j).value g = if g = f ∧ (s.value f).isNull = true then j else s.value g := by
  rw [fill]
  split
  next hnull => simp only [put_value, hnull, and_true]
  next hnull => rw [if_neg fun h => hnull h.2]

theorem fill_given (s : Settings) (f : Field) (text : String) :
    ((s.fill f (.str text)).value f).isNull = false := by
  rw [fill_value]
  split
  · rfl
  next hgiven => simpa using hgiven

theorem fill_of_given (hf : (s.value f).isNull = false) (j : Json) : s.fill f j = s := by
  rw [fill, if_neg (by simp [hf])]

/-- A file in a source tree is filled in like any other value. -/
theorem fillFrom_str (s : Settings) (f : Field) (tree file : String) :
    s.fillFrom f (.str tree) file = .ok (s.fill f (.str (under tree file))) := by
  rw [fillFrom, fill]
  split <;> rfl

theorem useSource_str (s : Settings) (tree : String) :
    s.useSource (.str tree) = .ok (((s.put .sourceDir (.str tree)).fill .configFile
      (.str (under tree ".config"))).fill .vmlinux (.str (under tree "vmlinux"))) := by
  have hshown : (Json.str tree).shown = tree := rfl
  rw [useSource, hshown, fillFrom_str]
  exact fillFrom_str _ _ _ _

end Values

section Completion

/-- Whether settings lack nothing that the machine or the source tree could tell. -/
structure IsComplete (h : Host) (s : Settings) : Prop where
  arch : (s.value .arch).isNull = false
  jobs : (s.value .jobs).isZero = true → s.value .jobs = .int (h.cpus.getD 1)
  tree : s.value .sourceDir = .null ∨ (∃ tree, s.value .sourceDir = .str tree) ∧
    (s.value .configFile).isNull = false ∧ (s.value .vmlinux).isNull = false

/-- Filling in such settings leaves them as they are. -/
theorem IsComplete.complete (hs : IsComplete h s) : s.complete h = .ok s := by
  have hjobs : (if (s.value .jobs).isZero then s.put .jobs (.int (h.cpus.getD 1)) else s) = s := by
    split
    next hzero => rw [← hs.jobs hzero, put_self]
    next => rfl
  rw [Settings.complete, fill_of_given hs.arch, hjobs]
  rcases hs.tree with htree | ⟨⟨tree, htree⟩, hconfig, himage⟩
  · rw [htree]
    rfl
  · have hput : s.put .sourceDir (.str tree) = s := by rw [← htree, put_self]
    rw [htree, if_neg (by simp [isNull]), useSource_str, hput, fill_of_given hconfig, fill_of_given himage]

theorem fillFrom_of_ok {tree : Json} {file : String} (hr : s.fillFrom f tree file = .ok s') :
    ∃ v, s' = s.fill f (.str v) := by
  rw [fillFrom] at hr
  split at hr
  next hnull =>
    obtain ⟨text, -, hr⟩ := exists_of_bind hr
    cases hr
    exact ⟨_, by rw [fill, if_pos hnull]⟩
  next hgiven =>
    cases hr
    exact ⟨"", by rw [fill, if_neg hgiven]⟩

theorem useSource_of_ok {tree : Json} (hr : s.useSource tree = .ok s') :
    ∃ c v, s' = ((s.put .sourceDir (.str tree.shown)).fill .configFile (.str c)).fill .vmlinux
      (.str v) := by
  obtain ⟨s₁, hconfig, himage⟩ := exists_of_bind hr
  obtain ⟨c, rfl⟩ := fillFrom_of_ok hconfig
  obtain ⟨v, rfl⟩ := fillFrom_of_ok himage
  exact ⟨c, v, rfl⟩

/-- Settings with what the machine tells. -/
def settled (h : Host) (s : Settings) : Settings :=
  let s := s.fill .arch (.str h.machine)
  if (s.value .jobs).isZero then s.put .jobs (.int (h.cpus.getD 1)) else s

theorem complete_eq (h : Host) (s : Settings) : s.complete h =
    if ((settled h s).value .sourceDir).isNull then .ok (settled h s)
    else (settled h s).useSource ((settled h s).value .sourceDir) := rfl

theorem complete_of_ok (hr : s.complete h = .ok s') :
    (settled h s).value .sourceDir = .null ∧ s' = settled h s ∨ ∃ tree c v,
      s' = (((settled h s).put .sourceDir (.str tree)).fill .configFile (.str c)).fill .vmlinux
        (.str v) := by
  rw [complete_eq] at hr
  split at hr
  next hnull =>
    cases hr
    refine .inl ⟨?_, rfl⟩
    cases htree : (settled h s).value .sourceDir with
    | null => rfl
    | _ =>
      rw [htree] at hnull
      cases hnull
  next =>
    obtain ⟨c, v, rfl⟩ := useSource_of_ok hr
    exact .inr ⟨_, c, v, rfl⟩

theorem settled_arch (h : Host) (s : Settings) : ((settled h s).value .arch).isNull = false := by
  have hfill := fill_given s .arch h.machine
  rw [settled]
  split
  · exact hfill
  · exact hfill

theorem settled_jobs (h : Host) (s : Settings) (hzero : ((settled h s).value .jobs).isZero = true) :
    (settled h s).value .jobs = .int (h.cpus.getD 1) := by
  rw [settled] at hzero ⊢
  split at hzero
  next hs => rw [if_pos hs, put_value, if_pos rfl]
  next hs => exact absurd hzero hs

/-- Filling settings in leaves nothing to fill in. -/
theorem isComplete_of_complete (hr : s.complete h = .ok s') : IsComplete h s' := by
  obtain ⟨hnull, rfl⟩ | ⟨tree, c, v, rfl⟩ := complete_of_ok hr
  · exact ⟨settled_arch h s, settled_jobs h s, .inl hnull⟩
  · refine ⟨?_, ?_, .inr ⟨⟨tree, ?_⟩, ?_, fill_given _ _ _⟩⟩
    · simpa [fill_value, put_value] using settled_arch h s
    · simpa [fill_value, put_value] using settled_jobs h s
    · simp [fill_value, put_value]
    · simpa [fill_value] using fill_given ((settled h s).put .sourceDir (.str tree)) .configFile c

section Kept

variable {P : Field → Json → Prop}

theorem put_keeps (hs : ∀ g, P g (s.value g)) (hj : P f j) (g : Field) : P g ((s.put f j).value g) := by
  rw [put_value]
  split
  next hg => rwa [hg]
  next => exact hs g

theorem fill_keeps (hs : ∀ g, P g (s.value g)) (hj : P f j) (g : Field) :
    P g ((s.fill f j).value g) := by
  rw [fill]
  split
  · exact put_keeps hs hj g
  · exact hs g

variable (hP : ∀ {f j}, f.make.accepts j = true → P f j)
include hP

/-- Pointing at a source tree gives a text to all that it changes. -/
theorem useSource_keeps {tree : Json} (hs : ∀ g, P g (s.value g)) (hr : s.useSource tree = .ok s') :
    ∀ g, P g (s'.value g) := by
  obtain ⟨c, v, rfl⟩ := useSource_of_ok hr
  exact fill_keeps (fill_keeps (put_keeps hs (hP rfl)) (hP rfl)) (hP rfl)

/-- Everything that is filled in is of the make it is meant to have. -/
theorem complete_keeps (hs : ∀ g, P g (s.value g)) (hr : s.complete h = .ok s') :
    ∀ g, P g (s'.value g) := by
  have harch := fill_keeps (f := .arch) (j := .str h.machine) hs (hP rfl)
  have hsettled : ∀ g, P g ((settled h s).value g) := by
    rw [settled]
    split
    · exact put_keeps harch (hP rfl)
    · exact harch
  rw [complete_eq] at hr
  split at hr
  · cases hr
    exact hsettled
  · exact useSource_keeps hP hsettled hr

end Kept

end Completion

section Files

theorem mem_all (f : Field) : f ∈ Field.all := by
  cases f <;> decide

theorem ofTitle?_title (f : Field) : Field.ofTitle? f.title = some f := by
  cases f <;> decide

/-- Putting every value in leaves nothing of what was there. -/
theorem foldl_put (fs : List Field) (b : Settings) (v : Field → Json) (g : Field) :
    ((fs.map fun f => (f, v f)).foldl (fun s p => s.put p.1 p.2) b).value g =
      if g ∈ fs then v g else b.value g := by
  induction fs generalizing b with
  | nil => rfl
  | cons f fs ih =>
    rw [List.map_cons, List.foldl_cons, ih, put_value]
    by_cases hg : g = f
    · subst hg
      simp
    · simp [hg]

/-- The members of settings name every setting once. -/
theorem ofJson_toJson (h : Host) (s : Settings) : ofJson h s.toJson = s.complete h := by
  have hnames : ((s.members.map Prod.fst).filter fun n => (Field.ofTitle? n).isNone) = [] := by
    rw [List.filter_eq_nil_iff, members, List.map_map]
    intro n hn
    obtain ⟨f, -, rfl⟩ := List.mem_map.1 hn
    simp [ofTitle?_title]
  have hvalues : (Field.all.map fun f => (f, s.value f)).foldl (fun s g => s.put g.1 g.2) blank =
      s := by
    ext g
    rw [foldl_put, if_pos (mem_all g)]
  have hjson : s.toJson = .obj s.members := rfl
  have hread : ofJson h s.toJson = ofMembers h s.members := by
    rw [hjson, ofJson]
    simp only [namesIn, bind, Except.bind, pure, Except.pure, hnames]
  rw [hread, ofMembers, members, mapM_ok (g := fun m => ((Field.ofTitle? m.1).getD .name, m.2))]
  · simp only [bind, Except.bind, List.map_map, Function.comp_def, ofTitle?_title, Option.getD_some,
      hvalues]
  · intro m hm
    obtain ⟨f, -, rfl⟩ := List.mem_map.1 hm
    simp only [ofTitle?_title, Option.getD_some]

/-- Values that come back from the text of a settings file. -/
def IsStorable (s : Settings) : Prop := ∀ f, IsPlain (deepest - 1) (s.value f)

theorem IsStorable.plain (hs : s.IsStorable) : IsPlain deepest s.toJson := by
  refine .obj ?_ ?_
  · have htitles : s.members.map Prod.fst = Field.all.map Field.title := List.map_map
    rw [htitles]
    decide
  · intro m hm
    obtain ⟨f, -, rfl⟩ := List.mem_map.1 hm
    exact hs f

/-- The file a path leads to holds a text, whatever the log writes elsewhere. -/
def Holds (h : Host) (path text : String) (d : Disk) : Prop :=
  ∃ file, d.find h.cwd path = .ok (Place.of h.cwd path, .file file) ∧
    file.content = Text.encode text

theorem Holds.append {path text : String} {d : Disk} (hd : Holds h path text d) {p : Place}
    (hp : Place.of h.cwd path ≠ p) (serial : Nat) (c : Bytes) :
    Holds h path text (d.append p serial c) := by
  obtain ⟨file, hfind, hcontent⟩ := hd
  exact ⟨file, Disk.find_append_ne hfind hp serial c, hcontent⟩

variable {t t' : Site} {path : String}

theorem save_of_ok (hsave : s.save path h t = (.ok (), t')) : s.toJson.cut? = none ∧ ∃ u,
    Act.change (·.write · path (Text.encode s.toJson.renderIndented)) h t = (.ok (), u) ∧
      Log.info source ("Settings saved to: " ++ path) h u = (.ok (), t') := by
  cases hcut : s.toJson.cut? with
  | some text =>
    rw [save, hcut] at hsave
    obtain ⟨_, u, _, hthrow⟩ := bind_of_ok hsave
    cases hthrow
  | none =>
    rw [save, hcut] at hsave
    obtain ⟨_, u, hwrite, hlog⟩ := bind_of_ok hsave
    exact ⟨rfl, u, hwrite, hlog⟩

/-- Saved settings are in their file, unless the log is written into it. -/
theorem save_holds (hsinks : ∀ n, .file (Place.of h.cwd path) n ∉ t.sinks)
    (hsave : s.save path h t = (.ok (), t')) :
    Holds h path s.toJson.renderIndented t'.disk := by
  obtain ⟨-, u, hwrite, hlog⟩ := save_of_ok hsave
  obtain ⟨d, hd, rfl⟩ := change_of_ok hwrite
  have hheld : Holds h path s.toJson.renderIndented d := Disk.find_writeAt hd
  have hkept := Log.emit_keeps (h := h) (t := { t with disk := d })
    (J := Holds h path s.toJson.renderIndented)
    (r := ⟨source, .info, "Settings saved to: " ++ path⟩) (fun _ p n c hp hJ =>
      hJ.append (fun heq => hsinks n (heq ▸ hp)) n c) hheld
  have hsite : t' = (Log.emit ⟨source, .info, "Settings saved to: " ++ path⟩ h
    { t with disk := d }).2 := (congrArg Prod.snd hlog).symm
  rw [hsite]
  exact hkept.1

theorem load_of_holds (hs : s.IsStorable) (ht : Holds h path s.toJson.renderIndented t.disk) :
    load path h t = (s.complete h, t) := by
  obtain ⟨file, hfind, hcontent⟩ := ht
  have hfeeds : Text.unify s.toJson.renderIndented.toList = s.toJson.renderIndented.toList := by
    rw [renderIndented, String.toList_ofList]
    exact Text.unify_eq (hs.plain.feeds 0)
  have hread : readJson path h t = (.ok (.ok s.toJson), t) := by
    rw [readJson, bind_ok (attempt_of (readText_of_find hfind hcontent)), hfeeds,
      String.ofList_toList]
    dsimp only
    rw [hs.plain.parse]
    rfl
  rw [load, bind_ok hread]
  dsimp only
  rw [bind_ok (read_apply h t), ofExcept_apply, ofJson_toJson]

/-- Settings that lack nothing are loaded as they were saved. -/
theorem load_save (hs : s.IsStorable) (hcomplete : IsComplete h s)
    (hsinks : ∀ n, .file (Place.of h.cwd path) n ∉ t.sinks)
    (hsave : s.save path h t = (.ok (), t')) : load path h t' = (.ok s, t') := by
  rw [load_of_holds hs (save_holds hsinks hsave), hcomplete.complete]

end Files

end Hotpatch.Settings
