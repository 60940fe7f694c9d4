import Hotpatch.Proofs.Kbuild.Recorded
import Hotpatch.Proofs.Kbuild.Words

/-! Records as they are written for the rules of a build, and what is read from them. A rule links its
inputs, makes an archive of them, or names a response file that lists them; an index of the whole tree
holds the inputs of all rules, and nothing else. -/

namespace Hotpatch.Kbuild

/-- An input of a rule, and whether only its bare name is written. -/
structure Input where
  path : String
  bare : Bool
  deriving DecidableEq, Repr

def Input.word (i : Input) : String := if i.bare then basename i.path else i.path

/-- How the command of a rule names the inputs; in a response file the same text follows each. -/
inductive Shape where
  | link
  | archive
  | response (file gap : String)
  deriving DecidableEq, Repr

/-- A response file stands beside the target, and what it lists is set apart. -/
def Shape.IsProper (target : String) : Shape → Prop
  | .response file gap => (Nameable file ∧ dirname file = dirname target) ∧
      gap ≠ "" ∧ ∀ c ∈ gap.toList, Text.isBlank c = true
  | _ => True

instance (target : String) : (σ : Shape) → Decidable (σ.IsProper target)
  | .link | .archive => .isTrue trivial
  | .response _ _ => inferInstanceAs (Decidable (_ ∧ _))

/-- How a target is made, and what its record says besides. -/
structure Rule where
  target : String
  inputs : List Input
  shape : Shape
  saved : Bool
  label : String
  before : List String
  after : List String
  deriving DecidableEq, Repr

namespace Rule

def words (ρ : Rule) : List String := ρ.inputs.map Input.word

def paths (ρ : Rule) : List String := ρ.inputs.map Input.path

/-- The calls that make the target, word by word. -/
def calls (ρ : Rule) : List (List String) :=
  match ρ.shape with
  | .link => [["ld", "-r", "-o"] ++ ρ.target :: ρ.words]
  | .archive => [["rm", "-f"] ++ [ρ.target], ["ar", "cDPrST"] ++ ρ.target :: ρ.words]
  | .response file _ => [["ld", "-r", "-o"] ++ [ρ.target, "@" ++ file]]

def command (ρ : Rule) : String := "; ".intercalate (ρ.calls.map (" ".intercalate ·))

def line (ρ : Rule) : String :=
  (if ρ.saved then "saved" else "") ++ "cmd_" ++ ρ.label ++ " := " ++ ρ.command

/-- The record of the rule's target. -/
def text (ρ : Rule) : String := Text.trailed "\n" (ρ.before ++ ρ.line :: ρ.after)

/-- The files that are written for a rule, and their texts. -/
def files (source : String) (ρ : Rule) : List (String × String) :=
  (recordOf source ρ.target, ρ.text) ::
    match ρ.shape with
    | .response file gap => [(under source file, Text.trailed gap ρ.words)]
    | _ => []

/-- A rule that can be written down: its names are words, its inputs are named in full or stand beside
the target, and no other line of its record gives a command. -/
structure IsProper (ρ : Rule) : Prop where
  inner : IsInner ρ.target
  target : Nameable ρ.target
  part : isPart ρ.target = true
  plain : ".git" ∉ (Path.ofText ρ.target).parts
  inputs : ∀ i ∈ ρ.inputs, Nameable i.path ∧ isPart i.path = true
  full : ∀ i ∈ ρ.inputs, i.bare = false → '/' ∈ i.path.toList ∨ dirname ρ.target = ""
  bare : ∀ i ∈ ρ.inputs, i.bare = true → dirname i.path = dirname ρ.target
  shape : ρ.shape.IsProper ρ.target
  label : ρ.label ≠ "" ∧ ∀ c ∈ ρ.label.toList, Text.isBlank c = false
  others : ∀ l ∈ ρ.before ++ ρ.after, (∀ c ∈ l.toList, Text.isLineEnd c = false) ∧
    Text.starts "cmd_" l = false ∧ Text.starts "savedcmd_" l = false

instance (ρ : Rule) : Decidable ρ.IsProper :=
  decidable_of_iff (IsInner ρ.target ∧ Nameable ρ.target ∧ isPart ρ.target = true ∧
      ".git" ∉ (Path.ofText ρ.target).parts ∧
      (∀ i ∈ ρ.inputs, Nameable i.path ∧ isPart i.path = true) ∧
      (∀ i ∈ ρ.inputs, i.bare = false → '/' ∈ i.path.toList ∨ dirname ρ.target = "") ∧
      (∀ i ∈ ρ.inputs, i.bare = true → dirname i.path = dirname ρ.target) ∧
      ρ.shape.IsProper ρ.target ∧ (ρ.label ≠ "" ∧ ∀ c ∈ ρ.label.toList, Text.isBlank c = false) ∧
      ∀ l ∈ ρ.before ++ ρ.after, (∀ c ∈ l.toList, Text.isLineEnd c = false) ∧
        Text.starts "cmd_" l = false ∧ Text.starts "savedcmd_" l = false)
    ⟨fun ⟨h₁, h₂, h₃, h₄, h₅, h₆, h₇, h₈, h₉, h₁₀⟩ => ⟨h₁, h₂, h₃, h₄, h₅, h₆, h₇, h₈, h₉, h₁₀⟩,
      fun h => ⟨h.inner, h.target, h.part, h.plain, h.inputs, h.full, h.bare, h.shape, h.label, h.others⟩⟩

/-- The files of a rule stand in a tree. -/
def Written (t : Tree) (ρ : Rule) : Prop :=
  ∀ f ∈ ρ.files (clean t.source), t.disk.read t.cwd f.1 = .ok (Text.encode f.2)

instance (t : Tree) (ρ : Rule) : Decidable (ρ.Written t) :=
  inferInstanceAs (Decidable (∀ f ∈ ρ.files (clean t.source), _))

end Rule

section Reading

variable {d : Disk} {cwd : Place} {source dir token : String}

theorem isBlank_of_isLineEnd {c : Char} (h : Text.isLineEnd c = true) : Text.isBlank c = true := by
  simp only [Text.isLineEnd, Text.isBlank, Bool.or_eq_true, Bool.and_eq_true, decide_eq_true_eq] at h ⊢
  omega

/-- What separates words: blanks, and some more. -/
theorem not_isBlank {c : Char} (h : isSeparator c = false) : Text.isBlank c = false := by
  rw [isSeparator, Bool.or_eq_false_iff] at h
  exact h.1

theorem not_isLineEnd {c : Char} (h : Text.isBlank c = false) : Text.isLineEnd c = false := by
  rw [← Bool.not_eq_true] at h ⊢
  exact fun hc => h (isBlank_of_isLineEnd hc)

theorem ofEach_cons {α β : Type} {f : α → Found β} {a : α} {as : List α} {xs ys : List β}
    (ha : f a = .all xs) (has : Found.ofEach f as = .all ys) :
    Found.ofEach f (a :: as) = .all (xs ++ ys) := by
  rw [Found.ofEach] at has ⊢
  rw [List.foldr_cons, has, ha]
  rfl

theorem ofEach_map {α β : Type} {f : α → Found β} {g : α → β} {as : List α}
    (h : ∀ a ∈ as, f a = .all [g a]) : Found.ofEach f as = .all (as.map g) := by
  induction as with
  | nil => rfl
  | cons a as ih =>
    exact ofEach_cons (h a List.mem_cons_self) (ih fun b hb => h b (List.mem_cons_of_mem a hb))

theorem inputsOf_word (hat : token.toList.head? ≠ some '@') : inputsOf d cwd source dir token =
    .all (if isPart token && token.toList.head? ≠ some '-' then [resolve token dir] else []) := by
  rw [inputsOf]
  split
  · next file htoken =>
    rw [htoken] at hat
    exact absurd rfl hat
  · rfl

theorem inputsOf_response (file : String) :
    inputsOf d cwd source dir ("@" ++ file) = listed d cwd source file dir := by
  have htoken : ("@" ++ file).toList = '@' :: file.toList := by
    rw [String.toList_append]
    rfl
  rw [inputsOf, htoken]
  change listed d cwd source (String.ofList file.toList) dir = _
  rw [String.ofList_toList]

theorem inputsOf_plain (hat : token.toList.head? ≠ some '@') (h : isPart token = false) :
    inputsOf d cwd source dir token = .all [] := by
  rw [inputsOf_word hat, h]
  rfl

theorem inputsOf_part (h : isPart token = true)
    (hhead : token.toList.head? ≠ some '-' ∧ token.toList.head? ≠ some '@') :
    inputsOf d cwd source dir token = .all [resolve token dir] := by
  rw [inputsOf_word hhead.2, h, if_pos (by simpa using hhead.1)]

/-- Words with spaces between them are the words of a command. -/
theorem tokens_intercalate {ws : List String}
    (h : ∀ w ∈ ws, w ≠ "" ∧ ∀ c ∈ w.toList, isSeparator c = false) :
    tokens (" ".intercalate ws).toList = ws := by
  have hruns : Text.runs isSeparator ([' '].intercalate (ws.map String.toList)) =
      ws.map String.toList := by
    refine Text.runs_intercalate (by decide) fun w hw => ?_
    obtain ⟨s, hs, rfl⟩ := List.mem_map.1 hw
    exact ⟨fun hnil => (h s hs).1 (String.toList_eq_nil_iff.1 hnil), (h s hs).2⟩
  rw [tokens, String.toList_intercalate]
  change (Text.runs isSeparator ([' '].intercalate _)).map String.ofList = ws
  rw [hruns, List.map_map]
  simp

/-- Calls, one after another. -/
theorem tokens_calls {wss : List (List String)}
    (h : ∀ ws ∈ wss, ∀ w ∈ ws, w ≠ "" ∧ ∀ c ∈ w.toList, isSeparator c = false) :
    tokens ("; ".intercalate (wss.map (" ".intercalate ·))).toList = wss.flatten := by
  have hnext : ∀ as bs : List Char, tokens (as ++ "; ".toList ++ bs) = tokens as ++ tokens bs := by
    intro as bs
    have hblank : ∀ c ∈ [' '], isSeparator c = true := by decide
    have hchars : as ++ "; ".toList ++ bs = as ++ ';' :: ([' '] ++ bs) := List.append_assoc _ _ _
    rw [tokens, tokens, tokens, hchars, Text.runs_append _ (by decide), Text.runs_blank hblank,
      List.map_append]
  rw [String.toList_intercalate, List.map_map]
  induction wss with
  | nil => rfl
  | cons ws wss ih =>
    have hws := tokens_intercalate (h ws List.mem_cons_self)
    have ih := ih fun vs hvs => h vs (List.mem_cons_of_mem ws hvs)
    cases wss with
    | nil => simpa using hws
    | cons vs wss =>
      rw [List.map_cons] at ih
      rw [List.map_cons, List.map_cons, List.intercalate_cons_cons, hnext, ih, Function.comp_apply, hws]
      rfl

end Reading

section Rules

variable {ρ : Rule} {t : Tree} {i : Input}

namespace Rule

/-- The word that stands for an input is the end of its path, and the whole path is taken from it. -/
theorem IsProper.word (h : ρ.IsProper) (hi : i ∈ ρ.inputs) :
    (∀ c ∈ i.word.toList, isSeparator c = false) ∧ isPart i.word = true ∧
      (i.word.toList.head? ≠ some '-' ∧ i.word.toList.head? ≠ some '@') ∧
      resolve i.word (dirname ρ.target) = i.path := by
  obtain ⟨hname, hpart⟩ := h.inputs i hi
  cases hbare : i.bare with
  | false =>
    have hword : i.word = i.path := by simp [Input.word, hbare]
    rw [hword]
    exact ⟨hname.whole, hpart, hname.head hpart, hname.resolve_full hpart (h.full i hi hbare)⟩
  | true =>
    have hword : i.word = basename i.path := by simp [Input.word, hbare]
    obtain ⟨ns, n, hns, hpath, hdir⟩ := hname.beside hpart h.inner (h.bare i hi hbare)
    have hn : n ∈ (Path.ofText i.path).parts := by
      rw [hpath, Path.ofText_inner hns.names]
      simp
    have hchars : ∀ c ∈ n.toList, c ∈ i.path.toList := by
      intro c hc
      rw [hpath]
      rcases eq_or_ne ns [] with rfl | hne
      · rw [List.nil_append, Path.inner_eq (by simpa using hns.names) (by simp),
          String.intercalate_singleton]
        exact hc
      · rw [Path.toList_concat hns.names hne]
        exact List.mem_append_right _ (List.mem_cons_of_mem _ hc)
    rw [hword, hpath, basename_inner hns.names, hdir]
    exact ⟨fun c hc => hname.whole c (hchars c hc), by rwa [← isPart_concat hns.names, ← hpath],
      hname.plain n hn, resolve_bare hns⟩

theorem IsProper.words (h : ρ.IsProper) : ∀ w ∈ ρ.words,
    w ≠ "" ∧ ∀ c ∈ w.toList, isSeparator c = false := by
  intro w hw
  obtain ⟨i, hi, rfl⟩ := List.mem_map.1 hw
  obtain ⟨hwhole, hpart, -⟩ := h.word hi
  exact ⟨(isPart_filled hpart).1, hwhole⟩

theorem IsProper.resolved (h : ρ.IsProper) :
    ρ.words.map (resolve · (dirname ρ.target)) = ρ.paths := by
  rw [Rule.words, paths, List.map_map]
  refine List.map_congr_left fun i hi => ?_
  obtain ⟨-, -, -, hpath⟩ := h.word hi
  rw [Function.comp_apply, hpath]

variable {d : Disk} {cwd : Place} {source : String}

theorem IsProper.words_read (h : ρ.IsProper) :
    .ofEach (inputsOf d cwd source (dirname ρ.target)) ρ.words = Found.all ρ.paths := by
  rw [← h.resolved]
  refine ofEach_map fun w hw => ?_
  obtain ⟨i, hi, rfl⟩ := List.mem_map.1 hw
  obtain ⟨-, hpart, hhead, -⟩ := h.word hi
  exact inputsOf_part hpart hhead

/-- The target is one of the words, too. -/
theorem IsProper.target_read (h : ρ.IsProper) :
    inputsOf d cwd source (dirname ρ.target) ρ.target = .all [ρ.target] := by
  have hfull : '/' ∈ ρ.target.toList ∨ dirname ρ.target = "" := by
    by_cases hs : '/' ∈ ρ.target.toList
    · exact .inl hs
    · exact .inr (dirname_of_whole hs)
  rw [inputsOf_part h.part (h.target.head h.part), h.target.resolve_full h.part hfull]

theorem IsProper.spelled (h : ρ.IsProper) : ∀ ws ∈ ρ.calls, ∀ w ∈ ws,
    w ≠ "" ∧ ∀ c ∈ w.toList, isSeparator c = false := by
  have hfixed : ∀ w ∈ ["ld", "-r", "-o", "rm", "-f", "ar", "cDPrST"],
      w ≠ "" ∧ ∀ c ∈ w.toList, isSeparator c = false := by decide
  have htarget : ρ.target ≠ "" ∧ ∀ c ∈ ρ.target.toList, isSeparator c = false :=
    ⟨(isPart_filled h.part).1, h.target.whole⟩
  have hrest : ∀ w ∈ ρ.target :: ρ.words, w ≠ "" ∧ ∀ c ∈ w.toList, isSeparator c = false :=
    List.forall_mem_cons.2 ⟨htarget, h.words⟩
  rw [Rule.calls]
  cases hs : ρ.shape with
  | link =>
    refine List.forall_mem_singleton.2 (List.forall_mem_append.2 ⟨fun w hw => ?_, hrest⟩)
    exact hfixed w (by revert w; decide)
  | archive =>
    refine List.forall_mem_cons.2 ⟨List.forall_mem_append.2 ⟨fun w hw => ?_, ?_⟩,
      List.forall_mem_singleton.2 (List.forall_mem_append.2 ⟨fun w hw => ?_, hrest⟩)⟩
    · exact hfixed w (by revert w; decide)
    · exact List.forall_mem_singleton.2 htarget
    · exact hfixed w (by revert w; decide)
  | response file gap =>
    have hat : ("@" ++ file).toList = '@' :: file.toList := String.toList_append
    refine List.forall_mem_singleton.2 (List.forall_mem_append.2 ⟨fun w hw => ?_,
      List.forall_mem_cons.2 ⟨htarget, List.forall_mem_singleton.2 ⟨fun hnil => ?_, ?_⟩⟩⟩)
    · exact hfixed w (by revert w; decide)
    · rw [hnil] at hat
      cases hat
    · rw [hat]
      have hshape : Shape.IsProper ρ.target (.response file gap) := hs ▸ h.shape
      exact List.forall_mem_cons.2 ⟨by decide, hshape.1.1.whole⟩

/-- A response file lists the inputs. -/
theorem Written.listed {t : Tree} (h : ρ.IsProper) (hw : ρ.Written t) {file gap : String}
    (hs : ρ.shape = .response file gap) :
    Kbuild.listed t.disk t.cwd (clean t.source) file (dirname ρ.target) = Found.all ρ.paths := by
  have hshape := h.shape
  rw [hs] at hshape
  obtain ⟨⟨hfile, hdir⟩, hgap, hblank⟩ := hshape
  have hread : t.disk.read t.cwd (under (clean t.source) file) =
      .ok (Text.encode (Text.trailed gap ρ.words)) := by
    refine hw (under (clean t.source) file, Text.trailed gap ρ.words) ?_
    rw [Rule.files, hs]
    exact List.mem_cons_of_mem _ List.mem_cons_self
  obtain ⟨f, hfind, hcontent⟩ := Disk.read_ok hread
  have hwords : Text.words (Text.decodeLossy f.content) = ρ.words := by
    rw [hcontent, Text.decodeLossy_encode]
    refine Text.words_trailed hgap hblank fun w hw => ?_
    obtain ⟨hne, hwhole⟩ := h.words w hw
    exact ⟨hne, fun c hc => not_isBlank (hwhole c hc)⟩
  have hparts : ρ.words.filter isPart = ρ.words := by
    refine List.filter_eq_self.2 fun w hw => ?_
    obtain ⟨i, hi, rfl⟩ := List.mem_map.1 hw
    exact (h.word hi).2.1
  have hlook : t.disk.look? t.cwd (under (clean t.source) file) = .ok (some (.file f)) := by
    rw [Disk.look?, hfind]
  unfold Kbuild.listed
  rw [hlook]
  dsimp only
  rw [hwords, hparts, hfile.normal, hdir, ite_self, h.resolved]

/-- The command of a rule names its inputs, and its target besides. -/
theorem Written.named {t : Tree} (h : ρ.IsProper) (hw : ρ.Written t) : ∃ is,
    Kbuild.inputs t.disk t.cwd (clean t.source) (dirname ρ.target) ρ.command.toList = .all is ∧
      is.filter (· ≠ ρ.target) = ρ.paths.filter (· ≠ ρ.target) := by
  have hplain : ∀ w ∈ ["ld", "-r", "-o", "rm", "-f", "ar", "cDPrST"],
      inputsOf t.disk t.cwd (clean t.source) (dirname ρ.target) w = .all [] := by
    intro w hw
    have hword : w.toList.head? ≠ some '@' ∧ isPart w = false := by
      revert w
      decide
    exact inputsOf_plain hword.1 hword.2
  rw [Kbuild.inputs, Rule.command, tokens_calls h.spelled, Rule.calls]
  cases hs : ρ.shape with
  | link =>
    rw [List.flatten_singleton]
    refine ⟨_, ofEach_cons (hplain _ (by simp)) <| ofEach_cons (hplain _ (by simp)) <|
      ofEach_cons (hplain _ (by simp)) <| ofEach_cons h.target_read h.words_read, ?_⟩
    simp
  | archive =>
    rw [List.flatten_cons, List.flatten_singleton]
    refine ⟨_, ofEach_cons (hplain _ (by simp)) <| ofEach_cons (hplain _ (by simp)) <|
      ofEach_cons h.target_read <| ofEach_cons (hplain _ (by simp)) <|
      ofEach_cons (hplain _ (by simp)) <| ofEach_cons h.target_read h.words_read, ?_⟩
    simp
  | response file gap =>
    have hlisted := (inputsOf_response file).trans (hw.listed h hs)
    refine ⟨_, ofEach_cons (hplain _ (by simp)) <| ofEach_cons (hplain _ (by simp)) <|
      ofEach_cons (hplain _ (by simp)) <| ofEach_cons h.target_read <| ofEach_cons hlisted rfl, ?_⟩
    simp

/-- The command of a rule begins with the name of a program. -/
theorem command_head (ρ : Rule) : ∃ c cs, ρ.command.toList = c :: cs ∧ Text.isBlank c = false := by
  have hfirst : ∃ w ws wss, ρ.calls = (w :: ws) :: wss ∧ (w = "ld" ∨ w = "rm") := by
    rw [calls]
    cases ρ.shape with
    | link => exact ⟨_, _, _, rfl, .inl rfl⟩
    | archive => exact ⟨_, _, _, rfl, .inr rfl⟩
    | response file gap => exact ⟨_, _, _, rfl, .inl rfl⟩
  obtain ⟨w, ws, wss, hcalls, hw⟩ := hfirst
  have hchar : ∃ c cs, w.toList = c :: cs ∧ Text.isBlank c = false := by
    rcases hw with rfl | rfl
    · exact ⟨'l', ['d'], rfl, by decide⟩
    · exact ⟨'r', ['m'], rfl, by decide⟩
  obtain ⟨c, cs, hc, hblank⟩ := hchar
  obtain ⟨ds, hds⟩ := Text.head_intercalate hc " " ws
  obtain ⟨es, hes⟩ := Text.head_intercalate hds "; " (wss.map (" ".intercalate ·))
  refine ⟨c, es, ?_, hblank⟩
  rw [command, hcalls, List.map_cons, hes]

theorem IsProper.command_chars (h : ρ.IsProper) : ∀ c ∈ ρ.command.toList, Text.isLineEnd c = false := by
  have hsep : ∀ c ∈ "; ".toList, Text.isLineEnd c = false := by decide
  intro c hc
  rcases Text.mem_intercalate hc with hc | ⟨s, hs, hc⟩
  · exact hsep c hc
  · obtain ⟨ws, hws, rfl⟩ := List.mem_map.1 hs
    rcases Text.mem_intercalate hc with hc | ⟨w, hw, hc⟩
    · exact hsep c (List.mem_of_mem_tail hc)
    · exact not_isLineEnd (not_isBlank ((h.spelled ws hws w hw).2 c hc))

theorem toList_line (ρ : Rule) : ρ.line.toList = (if ρ.saved then "saved" else "").toList ++
    ("cmd_".toList ++ (ρ.label.toList ++ (" := ".toList ++ ρ.command.toList))) := by
  simp only [line, String.toList_append, List.append_assoc]

theorem IsProper.lines (h : ρ.IsProper) :
    ∀ l ∈ ρ.before ++ ρ.line :: ρ.after, ∀ c ∈ l.toList, Text.isLineEnd c = false := by
  have hline : ∀ c ∈ ρ.line.toList, Text.isLineEnd c = false := by
    rw [toList_line]
    refine List.forall_mem_append.2 ⟨?_, List.forall_mem_append.2 ⟨by decide,
      List.forall_mem_append.2 ⟨fun c hc => not_isLineEnd (h.label.2 c hc),
        List.forall_mem_append.2 ⟨by decide, h.command_chars⟩⟩⟩⟩
    split <;> decide
  have hothers := List.forall_mem_append.1 fun l hl => (h.others l hl).1
  exact List.forall_mem_append.2 ⟨hothers.1, List.forall_mem_cons.2 ⟨hline, hothers.2⟩⟩

theorem assigned?_command (ρ : Rule) :
    assigned? (" := ".toList ++ ρ.command.toList) = some ρ.command.toList := by
  obtain ⟨c, cs, hcs, hc⟩ := ρ.command_head
  have hblank : (" := ".toList ++ ρ.command.toList).dropWhile Text.isBlank =
      ":=".toList ++ ' ' :: ρ.command.toList := by
    rw [show " := ".toList = [' '] ++ ":= ".toList from rfl, List.append_assoc,
      List.dropWhile_append_of_pos (by decide)]
    rfl
  rw [assigned?, hblank, Text.after?_append, Option.map_some, List.dropWhile_cons_of_pos (by decide), hcs,
    List.dropWhile_cons_of_neg (by simp [hc])]

/-- The line of a rule gives its command. -/
theorem IsProper.command?_line (h : ρ.IsProper) : command? ρ.line.toList = some ρ.command.toList := by
  obtain ⟨hne, hlabel⟩ := h.label
  have hbody : (Text.after? "saved".toList ρ.line.toList).getD ρ.line.toList =
      "cmd_".toList ++ (ρ.label.toList ++ (" := ".toList ++ ρ.command.toList)) := by
    rw [toList_line]
    cases ρ.saved with
    | true =>
      rw [if_pos rfl, Text.after?_append, Option.getD_some]
    | false => rfl
  have hname : ∀ c ∈ ρ.label.toList, (!Text.isBlank c) = true := by
    intro c hc
    rw [hlabel c hc]
    rfl
  have hspace : ∀ rest : List Char, (" := ".toList ++ rest).takeWhile (fun c => !Text.isBlank c) = [] ∧
      (" := ".toList ++ rest).dropWhile (fun c => !Text.isBlank c) = " := ".toList ++ rest :=
    fun rest => ⟨rfl, rfl⟩
  obtain ⟨htake, hdrop⟩ := hspace ρ.command.toList
  have hfilled : ρ.label.toList.isEmpty = false := by
    rw [List.isEmpty_eq_false_iff]
    exact fun hnil => hne (String.toList_eq_nil_iff.1 hnil)
  rw [command?, hbody, Text.after?_append, Option.bind_eq_bind, Option.bind_some,
    List.takeWhile_append_of_pos hname, List.dropWhile_append_of_pos hname, htake, hdrop,
    List.append_nil]
  dsimp only
  rw [hfilled, ρ.assigned?_command]
  rfl

theorem command?_none {l : String} (hplain : Text.starts "cmd_" l = false)
    (hsaved : Text.starts "savedcmd_" l = false) : command? l.toList = none := by
  have hnone : Text.after? "cmd_".toList ((Text.after? "saved".toList l.toList).getD l.toList) = none := by
    rw [Option.eq_none_iff_forall_ne_some]
    intro r hr
    have hstart := Text.after?_some hr
    rcases hs : Text.after? "saved".toList l.toList with _ | rest
    · rw [hs, Option.getD_none] at hstart
      rw [Text.starts, hstart] at hplain
      simp at hplain
    · rw [hs, Option.getD_some] at hstart
      rw [Text.starts, Text.after?_some hs, hstart, ← List.append_assoc] at hsaved
      simp at hsaved
  rw [command?, hnone]
  rfl

/-- The record of a rule gives its command and no other. -/
theorem IsProper.commands (h : ρ.IsProper) : commands ρ.text = [ρ.command.toList] := by
  have hnone : ∀ ls : List String, (∀ l ∈ ls, Text.starts "cmd_" l = false ∧
      Text.starts "savedcmd_" l = false) → (ls.map String.toList).filterMap command? = [] := by
    intro ls hls
    rw [List.filterMap_map, List.filterMap_eq_nil_iff]
    exact fun l hl => command?_none (hls l hl).1 (hls l hl).2
  have hothers := List.forall_mem_append.1 fun l hl => (h.others l hl).2
  rw [Kbuild.commands, text, Text.splitLines_trailed h.lines, List.map_append, List.map_cons,
    List.filterMap_append, List.filterMap_cons_some h.command?_line, hnone _ hothers.1,
    hnone _ hothers.2]
  rfl

theorem IsProper.text_whole (h : ρ.IsProper) : '\r' ∉ ρ.text.toList := by
  intro hr
  rcases Text.mem_trailed hr with hr | ⟨l, hl, hr⟩
  · revert hr
    decide
  · exact absurd (h.lines l hl _ hr) (by decide)

end Rule

end Rules

end Hotpatch.Kbuild
