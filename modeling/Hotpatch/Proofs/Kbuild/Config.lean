import Hotpatch.Kbuild.Config
import Hotpatch.Proofs.Build.SourceCache
import Hotpatch.Proofs.Kbuild.Words
import Mathlib.Data.List.TakeWhile

/-! Kernel configurations are read as they are written. Whichever way an option's value is written, it is
read as it was; the last value of an option counts, and options stand in the order in which they first
come up. -/

namespace Hotpatch

namespace Text

section Strip

variable {p : Char → Bool} {cs : List Char}

theorem dropWhile_eq (h : ∀ c ∈ cs.head?, p c = false) : cs.dropWhile p = cs := by
  cases cs with
  | nil => rfl
  | cons c cs => rw [List.dropWhile_cons, if_neg (by simp [h c rfl])]

/-- Nothing is taken away where nothing at either end is to be. -/
theorem strip_eq (hhead : ∀ c ∈ cs.head?, p c = false) (hlast : ∀ c ∈ cs.getLast?, p c = false) :
    strip p cs = cs := by
  have hend : ∀ c ∈ cs.reverse.head?, p c = false := by
    rw [List.head?_reverse]
    exact hlast
  rw [strip, dropWhile_eq hhead, dropEnd, dropWhile_eq hend, List.reverse_reverse]

theorem strip_of_all (h : ∀ c ∈ cs, p c = true) : strip p cs = [] := by
  rw [strip, List.dropWhile_eq_nil_iff.2 h]
  rfl

/-- What stands between two marks, if it neither begins nor ends with one. -/
theorem strip_between {q : Char} (hq : p q = true) (hhead : ∀ c ∈ cs.head?, p c = false)
    (hlast : ∀ c ∈ cs.getLast?, p c = false) : strip p (q :: cs ++ [q]) = cs := by
  have hfront : strip p (q :: cs) = strip p cs := by
    rw [strip, strip, List.dropWhile_cons, if_pos hq]
  rw [strip_concat hq, hfront, strip_eq hhead hlast]

theorem strip_prefix (hhead : ∀ c ∈ cs.head?, p c = false) : strip p cs <+: cs := by
  rw [strip, dropWhile_eq hhead, dropEnd]
  exact List.reverse_suffix.1 (by simpa using List.dropWhile_suffix p)

end Strip

section Lines

variable {line rest : List Char}

theorem feedLines_line (h : '\n' ∉ line) (rest : List Char) :
    feedLines (line ++ '\n' :: rest) = line :: feedLines rest := by
  induction line with
  | nil => rw [List.nil_append, feedLines, if_pos rfl]
  | cons c line ih =>
    rw [List.mem_cons, not_or] at h
    rw [List.cons_append, feedLines, if_neg (Ne.symm h.1), ih h.2]
    rfl

theorem feedLines_last (h : '\n' ∉ line) (hne : line ≠ []) : feedLines line = [line] := by
  induction line with
  | nil => exact absurd rfl hne
  | cons c line ih =>
    rw [List.mem_cons, not_or] at h
    rw [feedLines, if_neg (Ne.symm h.1)]
    cases line with
    | nil => rfl
    | cons d line => rw [ih h.2 (List.cons_ne_nil d line), onFirst]

theorem unify_append (h : '\r' ∉ line) (rest : List Char) :
    unify (line ++ rest) = line ++ unify rest := by
  induction line with
  | nil => rfl
  | cons c line ih =>
    rw [List.mem_cons, not_or] at h
    rw [List.cons_append, unify, ih h.2]
    · rfl
    · rintro _ rfl
      exact absurd rfl h.1
    · exact fun hc => absurd hc.symm h.1

end Lines

end Text

namespace Kbuild.Config

/-- The ways to write the value of an option. -/
inductive Form where
  | quoted | plain | unset
  deriving DecidableEq, Repr

/-- An option with its value, and how they are written. -/
structure Entry where
  name : String
  value : String
  form : Form
  deriving DecidableEq, Repr

namespace Entry

def text (e : Entry) : String :=
  match e.form with
  | .quoted => e.name ++ "=\"" ++ e.value ++ "\""
  | .plain => e.name ++ "=" ++ e.value
  | .unset => "# " ++ e.name ++ " is not set"

/-- The value can be written that way. -/
def Suits (e : Entry) : Prop :=
  match e.form with
  | .quoted => True
  | .plain => ∀ c ∈ e.value.toList.getLast?, Text.isBlank c = false
  | .unset => e.value = "n"

structure IsProper (e : Entry) : Prop where
  name : ∃ word : List Char, e.name.toList = "CONFIG_".toList ++ word ∧ word ≠ [] ∧
    ∀ c ∈ word, Text.isWord c = true
  whole : '\n' ∉ e.value.toList ∧ '\r' ∉ e.value.toList
  bare : e.value.toList.head? ≠ some '"' ∧ e.value.toList.getLast? ≠ some '"'
  suits : e.Suits

end Entry

inductive Line where
  | entry (e : Entry)
  | blank (gap : String)
  | comment (text : String)
  deriving DecidableEq, Repr

namespace Line

def text : Line → String
  | .entry e => e.text
  | .blank gap => gap
  | .comment text => text

def given? : Line → Option Entry
  | .entry e => some e
  | _ => none

def IsProper : Line → Prop
  | .entry e => e.IsProper
  | .blank gap => ∀ c ∈ gap.toList, Text.isBlank c = true ∧ c ≠ '\n' ∧ c ≠ '\r'
  | .comment text => '\n' ∉ text.toList ∧ '\r' ∉ text.toList ∧ "#".toList <+: text.toList ∧
      ¬ "# CONFIG_".toList <+: text.toList

end Line

/-- The ways to end a line. -/
inductive Ending where
  | feed | carriage | both
  deriving DecidableEq, Repr

def Ending.text : Ending → String
  | .feed => "\n"
  | .carriage => "\r"
  | .both => "\r\n"

/-- A configuration of some lines with their endings and a last one without. -/
def written (ls : List (Line × Ending)) (last : Line) : String :=
  String.join (ls.map fun l => l.1.text ++ l.2.text) ++ last.text

/-- The entries on some lines, in order. -/
def entriesOf (ls : List (Line × Ending)) (last : Line) : List Entry :=
  (ls.map Prod.fst ++ [last]).filterMap Line.given?

section Reading

variable {e : Entry} {l : Line} {line rest : List Char}

theorem Entry.IsProper.first (h : e.IsProper) : ∃ cs, e.name.toList = 'C' :: cs := by
  obtain ⟨word, hname, -⟩ := h.name
  exact ⟨_, hname⟩

theorem Entry.IsProper.mem_name (h : e.IsProper) {c : Char} (hc : c ∈ e.name.toList) :
    Text.isWord c = true := by
  obtain ⟨word, hname, -, hword⟩ := h.name
  rw [hname] at hc
  rcases List.mem_append.1 hc with hc | hc
  · exact List.all_eq_true.1 (by decide : "CONFIG_".toList.all Text.isWord = true) c hc
  · exact hword c hc

theorem Entry.IsProper.not_mem_name (h : e.IsProper) {c : Char} (hc : Text.isWord c = false) :
    c ∉ e.name.toList := by
  intro hmem
  rw [h.mem_name hmem] at hc
  cases hc

/-- Blanks at its ends are no part of any entry. -/
theorem Entry.IsProper.stripped (h : e.IsProper) :
    Text.strip Text.isBlank e.text.toList = e.text.toList := by
  obtain ⟨cs, hfirst⟩ := h.first
  have hsuits := h.suits
  refine Text.strip_eq (fun c hc => ?_) fun c hc => ?_
  · unfold Entry.text at hc
    split at hc
    all_goals
      simp [hfirst] at hc
      rw [← hc]
      decide
  · unfold Entry.Suits at hsuits
    unfold Entry.text at hc
    split at hc
    next hform =>
      obtain rfl : '"' = c := by simpa [List.getLast?_cons] using hc
      decide
    next hform =>
      rw [hform] at hsuits
      have hlast : (e.value.toList.getLast?).getD '=' = c := by
        simpa [List.getLast?_append, List.getLast?_cons] using hc
      rcases hv : e.value.toList.getLast? with _ | d
      · rw [hv] at hlast
        rw [← hlast]
        decide
      · rw [hv] at hlast
        exact hlast ▸ hsuits d hv
    next hform =>
      obtain rfl : 't' = c := by simpa [List.getLast?_cons] using hc
      decide

theorem Entry.IsProper.assignment (h : e.IsProper) :
    assignment? e.text.toList = some (e.name, e.value) := by
  obtain ⟨word, hname, hne, hword⟩ := h.name
  obtain ⟨cs, hfirst⟩ := h.first
  have hmark : '=' ∉ e.name.toList := h.not_mem_name (by decide)
  have hstart : ∀ as, (e.name.toList ++ as).head? ≠ some '#' := by simp [hfirst]
  have hoption : ∀ as, "CONFIG_".toList.isPrefixOf (e.name.toList ++ as) = true := by
    intro as
    rw [hname, List.append_assoc]
    exact List.isPrefixOf_iff_prefix.2 (List.prefix_append _ _)
  have hhead : ∀ c ∈ e.value.toList.head?, decide (c = '"') = false :=
    fun c hc => decide_eq_false fun hquote => h.bare.1 (hquote ▸ hc)
  have hlast : ∀ c ∈ e.value.toList.getLast?, decide (c = '"') = false :=
    fun c hc => decide_eq_false fun hquote => h.bare.2 (hquote ▸ hc)
  have hsuits := h.suits
  unfold Entry.Suits at hsuits
  unfold Entry.text
  split
  next hform =>
    have htext : (e.name ++ "=\"" ++ e.value ++ "\"").toList =
        e.name.toList ++ '=' :: ('"' :: e.value.toList ++ ['"']) := by simp
    rw [htext, assignment?, if_neg (hstart _), if_pos (hoption _), Text.cut?_append _ hmark]
    dsimp only
    rw [Text.strip_between rfl hhead hlast, String.ofList_toList, String.ofList_toList]
  next hform =>
    have htext : (e.name ++ "=" ++ e.value).toList = e.name.toList ++ '=' :: e.value.toList := by
      simp
    rw [htext, assignment?, if_neg (hstart _), if_pos (hoption _), Text.cut?_append _ hmark]
    dsimp only
    rw [Text.strip_eq hhead hlast, String.ofList_toList, String.ofList_toList]
  next hform =>
    rw [hform] at hsuits
    have htext : ("# " ++ e.name ++ " is not set").toList =
        "# CONFIG_".toList ++ (word ++ " is not set".toList) := by
      simp [hname]
    have htake : (word ++ " is not set".toList).takeWhile Text.isWord = word := by
      rw [List.takeWhile_append_of_pos hword]
      exact (congrArg (word ++ ·) (by decide)).trans (List.append_nil word)
    have hdrop : (word ++ " is not set".toList).dropWhile Text.isWord = " is not set".toList := by
      rw [List.dropWhile_append_of_pos hword]
      decide
    have hunset : unset? ("# CONFIG_".toList ++ (word ++ " is not set".toList)) = some e.name := by
      rw [unset?, Text.after?_append]
      simp only [Option.bind_eq_bind, Option.bind_some, htake, hdrop]
      have hrest := Text.after?_append " is not set".toList []
      rw [List.append_nil] at hrest
      rw [hrest, Option.bind_some, if_neg (by simpa using hne), ← hname, String.ofList_toList]
    rw [htext, assignment?, if_pos (by rfl), hunset, hsuits]
    rfl

/-- A line is read as the entry on it, if there is one. -/
theorem Line.IsProper.assignment (h : l.IsProper) :
    assignment? (Text.strip Text.isBlank l.text.toList) =
      l.given?.map fun e => (e.name, e.value) := by
  cases l with
  | entry e =>
    have he : e.IsProper := h
    rw [Line.text, he.stripped, he.assignment]
    rfl
  | blank gap =>
    rw [Line.text, Text.strip_of_all fun c hc => (h c hc).1]
    rfl
  | comment text =>
    obtain ⟨-, -, ⟨cs, hsharp⟩, hother⟩ := h
    have hhead : ∀ c ∈ text.toList.head?, Text.isBlank c = false := by
      rw [← hsharp]
      intro c hc
      cases hc
      decide
    have hprefix := Text.strip_prefix hhead
    rw [Line.text, assignment?]
    rcases hs : Text.strip Text.isBlank text.toList with _ | ⟨c, rest⟩
    · rfl
    · rw [hs, ← hsharp] at hprefix
      obtain rfl : c = '#' := (List.cons_prefix_cons.1 hprefix).1
      rw [if_pos (show ('#' :: rest).head? = some '#' from rfl)]
      rcases hu : Text.after? "# CONFIG_".toList ('#' :: rest) with _ | r
      · rw [unset?, hu]
        rfl
      · have hbegin : "# CONFIG_".toList <+: '#' :: rest :=
          ⟨r, (Text.after?_some hu).symm⟩
        exact absurd (hbegin.trans (hsharp ▸ hprefix)) hother

theorem Line.IsProper.whole (h : l.IsProper) : '\n' ∉ l.text.toList ∧ '\r' ∉ l.text.toList := by
  cases l with
  | entry e =>
    have he : e.IsProper := h
    obtain ⟨hfeed, hreturn⟩ := he.whole
    have hname : '\n' ∉ e.name.toList ∧ '\r' ∉ e.name.toList :=
      ⟨he.not_mem_name (by decide), he.not_mem_name (by decide)⟩
    unfold Line.text Entry.text
    dsimp only
    split <;> simp [hfeed, hreturn, hname]
  | blank gap => exact ⟨fun hc => (h _ hc).2.1 rfl, fun hc => (h _ hc).2.2 rfl⟩
  | comment text => exact ⟨h.1, h.2.1⟩

/-- The assignments on the lines of a text. -/
def assignmentsIn (cs : List Char) : List (String × String) :=
  (Text.feedLines cs).filterMap fun l => assignment? (Text.strip Text.isBlank l)

theorem assignmentsIn_line (h : '\n' ∉ line) (rest : List Char) :
    assignmentsIn (line ++ '\n' :: rest) =
      (assignment? (Text.strip Text.isBlank line)).toList ++ assignmentsIn rest := by
  rw [assignmentsIn, Text.feedLines_line h, List.filterMap_cons, assignmentsIn]
  cases assignment? (Text.strip Text.isBlank line) <;> rfl

theorem assignmentsIn_last (h : '\n' ∉ line) :
    assignmentsIn line = (assignment? (Text.strip Text.isBlank line)).toList := by
  by_cases hne : line = []
  · rw [hne]
    rfl
  · rw [assignmentsIn, Text.feedLines_last h hne, List.filterMap_cons]
    cases assignment? (Text.strip Text.isBlank line) <;> rfl

/-- Every ending ends a line. Where a carriage return and a line feed that belong to two lines meet, an
empty line is lost, on which nothing is assigned. -/
theorem assignmentsIn_ending (hfeed : '\n' ∉ line) (hreturn : '\r' ∉ line) (e : Ending)
    (rest : List Char) : assignmentsIn (Text.unify (line ++ (e.text.toList ++ rest))) =
      (assignment? (Text.strip Text.isBlank line)).toList ++ assignmentsIn (Text.unify rest) := by
  rw [Text.unify_append hreturn]
  cases e with
  | feed =>
    rw [← assignmentsIn_line hfeed]
    rfl
  | both =>
    rw [← assignmentsIn_line hfeed]
    rfl
  | carriage =>
    by_cases hmeet : ∃ cs, rest = '\n' :: cs
    · obtain ⟨cs, rfl⟩ := hmeet
      have hboth : Text.unify (Ending.carriage.text.toList ++ '\n' :: cs) =
          '\n' :: Text.unify cs := rfl
      have hempty : assignmentsIn (Text.unify ('\n' :: cs)) = assignmentsIn (Text.unify cs) :=
        assignmentsIn_line List.not_mem_nil (Text.unify cs)
      rw [hboth, assignmentsIn_line hfeed, hempty]
    · have halone : Text.unify (Ending.carriage.text.toList ++ rest) = '\n' :: Text.unify rest := by
        show Text.unify ('\r' :: rest) = _
        rw [Text.unify]
        exact fun cs hcs => hmeet ⟨cs, hcs⟩
      rw [halone, assignmentsIn_line hfeed]

/-- A configuration is read as the entries that were written. -/
theorem assignmentsIn_written {ls : List (Line × Ending)} {last : Line}
    (h : ∀ l ∈ ls.map Prod.fst ++ [last], l.IsProper) :
    assignmentsIn (Text.unify (written ls last).toList) =
      (entriesOf ls last).map fun e => (e.name, e.value) := by
  induction ls with
  | nil =>
    have hlast : last.IsProper := h last List.mem_cons_self
    have htext : (written [] last).toList = last.text.toList := by simp [written]
    rw [htext, Text.unify_eq hlast.whole.2, assignmentsIn_last hlast.whole.1, hlast.assignment,
      entriesOf]
    cases hentry : last.given? <;> simp [hentry]
  | cons l ls ih =>
    have hfirst : l.1.IsProper := h l.1 List.mem_cons_self
    have htext : (written (l :: ls) last).toList =
        l.1.text.toList ++ (l.2.text.toList ++ (written ls last).toList) := by
      simp [written, List.append_assoc]
    rw [htext, assignmentsIn_ending hfirst.whole.1 hfirst.whole.2, hfirst.assignment,
      ih fun l' hl' => h l' (List.mem_cons_of_mem _ hl'), entriesOf, entriesOf]
    cases hentry : l.1.given? <;> simp [hentry]

end Reading

section Assigning

variable {n v : String} {os as : List (String × String)}

theorem assign_lookup (n v m : String) (os : List (String × String)) :
    (assign n v os).lookup m = if m = n then some v else os.lookup m := by
  induction os with
  | nil =>
    rw [assign, List.lookup_cons]
    by_cases h : m = n
    · simp [h]
    · rw [beq_false_of_ne h, if_neg h]
  | cons o os ih =>
    obtain ⟨k, w⟩ := o
    rw [assign]
    by_cases hk : k = n
    · rw [if_pos hk, List.lookup_cons, List.lookup_cons, hk]
      by_cases h : m = n
      · simp [h]
      · rw [beq_false_of_ne h, if_neg h]
    · rw [if_neg hk, List.lookup_cons, List.lookup_cons, ih]
      by_cases h : m = k
      · simp [h, hk]
      · rw [beq_false_of_ne h]

theorem assign_names (n v : String) (os : List (String × String)) :
    (assign n v os).map Prod.fst =
      if n ∈ os.map Prod.fst then os.map Prod.fst else os.map Prod.fst ++ [n] := by
  induction os with
  | nil => rfl
  | cons o os ih =>
    obtain ⟨k, w⟩ := o
    rw [assign]
    by_cases hk : k = n
    · simp [hk]
    · rw [if_neg hk, List.map_cons, ih]
      have hother : n ≠ k := Ne.symm hk
      by_cases h : n ∈ os.map Prod.fst <;> simp [h, hother]

/-- Whatever was assigned to a name before, its last assignment counts. -/
theorem foldl_assign_lookup (as : List (String × String)) (m : String) :
    (as.foldl (fun os a => assign a.1 a.2 os) []).lookup m =
      ((as.filter (·.1 = m)).getLast?).map Prod.snd := by
  induction as using List.reverseRecOn with
  | nil => rfl
  | append_singleton as a ih =>
    rw [List.foldl_append, List.foldl_cons, List.foldl_nil, assign_lookup, ih, List.filter_append]
    by_cases h : a.1 = m
    · simp [h]
    · simp [h, Ne.symm h]

/-- Names stay where they first came up. -/
theorem foldl_assign_names (as : List (String × String)) :
    (as.foldl (fun os a => assign a.1 a.2 os) []).map Prod.fst = (as.map Prod.fst).eraseDups := by
  induction as using List.reverseRecOn with
  | nil => rfl
  | append_singleton as a ih =>
    rw [List.foldl_append, List.foldl_cons, List.foldl_nil, assign_names, ih, List.map_append,
      List.eraseDups_append]
    by_cases h : a.1 ∈ as.map Prod.fst
    · simp [h, List.removeAll]
    · simp [h, List.removeAll]
      rfl

end Assigning

section Files

variable {h : Host} {t : Site} {path : String} {q : Place} {f : File} {ls : List (Line × Ending)}
  {last : Line}

/-- A file with a configuration is read without a fault; each name has the value of its last entry, and
names stand in the order of their first entries. -/
theorem load_written (hfile : t.disk.find h.cwd (clean path) = .ok (q, .file f))
    (htext : f.content = Text.encode (written ls last))
    (hproper : ∀ l ∈ ls.map Prod.fst ++ [last], l.IsProper) :
    ∃ c, load path h t = (.ok c, t) ∧
      (∀ name, c.value? name =
        (((entriesOf ls last).filter (·.name = name)).getLast?).map Entry.value) ∧
      c.options.map Prod.fst = ((entriesOf ls last).map Entry.name).eraseDups := by
  have hread := Act.readText_of_find hfile htext
  have hassigned := assignmentsIn_written hproper
  refine ⟨ofText (String.ofList (Text.unify (written ls last).toList)), ?_, fun name => ?_, ?_⟩
  · rw [load]
    dsimp only
    rw [Act.bind_ok (Act.present_of_find hfile)]
    exact Act.bind_ok hread
  · rw [value?, ofText, assignments, String.toList_ofList]
    show (List.foldl _ [] (assignmentsIn _)).lookup name = _
    rw [hassigned, foldl_assign_lookup, List.filter_map, List.getLast?_map, Option.map_map]
    rfl
  · rw [ofText, assignments, String.toList_ofList]
    show (List.foldl _ [] (assignmentsIn _)).map _ = _
    rw [hassigned, foldl_assign_names, List.map_map]
    rfl

end Files

/-- An option that comes up three times, with each form and each ending once. -/
def sample : List (Line × Ending) := [
  (.entry ⟨"CONFIG_CMDLINE", " root=\"/dev/sda\" # ro ", .quoted⟩, .carriage),
  (.blank "", .feed),
  (.entry ⟨"CONFIG_PARAVIRT", "y", .plain⟩, .both),
  (.comment "#CONFIG_PARAVIRT=m", .feed),
  (.entry ⟨"CONFIG_CMDLINE", "a=b # c", .plain⟩, .feed)]

def sampleLast : Line := .entry ⟨"CONFIG_CMDLINE", "n", .unset⟩

def sampleSite : Site := { SourceCache.sampleSite with
  disk := ⟨[([".config"], .file ⟨Text.encode (written sample sampleLast), 0, 0⟩)], 1⟩ }

theorem sample_proper : ∀ l ∈ sample.map Prod.fst ++ [sampleLast], l.IsProper := by
  have hcmdline : ∃ word : List Char, "CONFIG_CMDLINE".toList = "CONFIG_".toList ++ word ∧
      word ≠ [] ∧ ∀ c ∈ word, Text.isWord c = true := ⟨"CMDLINE".toList, by decide +kernel⟩
  have hparavirt : ∃ word : List Char, "CONFIG_PARAVIRT".toList = "CONFIG_".toList ++ word ∧
      word ≠ [] ∧ ∀ c ∈ word, Text.isWord c = true := ⟨"PARAVIRT".toList, by decide +kernel⟩
  simp only [sample, sampleLast, List.map_cons, List.map_nil, List.cons_append, List.nil_append,
    List.forall_mem_cons]
  refine ⟨⟨hcmdline, by decide, by decide, trivial⟩, nofun, ⟨hparavirt, by decide, by decide, ?_⟩,
    ⟨by decide, by decide, by decide, by decide⟩, ⟨hcmdline, by decide, by decide, ?_⟩,
    ⟨hcmdline, by decide, by decide, rfl⟩, nofun⟩
  · intro c hc
    obtain rfl : 'y' = c := by simpa using hc
    decide
  · intro c hc
    obtain rfl : 'c' = c := by simpa using hc
    decide

theorem load_written_sample : ∃ c,
    load "./.config" SourceCache.sampleHost sampleSite = (.ok c, sampleSite) ∧
      c.value? "CONFIG_CMDLINE" = some "n" ∧ c.value? "CONFIG_PARAVIRT" = some "y" ∧
      c.options.map Prod.fst = ["CONFIG_CMDLINE", "CONFIG_PARAVIRT"] := by
  obtain ⟨c, hload, hvalue, hnames⟩ :=
    @load_written SourceCache.sampleHost sampleSite "./.config" _ _ sample sampleLast rfl rfl
      sample_proper
  refine ⟨c, hload, ?_, ?_, ?_⟩
  · rw [hvalue]
    decide
  · rw [hvalue]
    decide
  · rw [hnames]
    decide

end Kbuild.Config

end Hotpatch
