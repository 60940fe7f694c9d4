import Hotpatch.Build.Diagnostic
import Hotpatch.Proofs.Kbuild.Words

/-! The names in the output of a build. A diagnostic of the linker or of modpost, in whatever text without
quotes it stands, gives the one name in it; a line without quotes gives none. -/

namespace Hotpatch.Diagnostic

/-- A line of output: without quotes, or a diagnostic with text before and after it. -/
inductive Line where
  | plain (text : String)
  | reference (before : String) (opening : Char) (name : String) (closing : Char) (after : String)
  | modpost (before name module after : String)

def Unquoted (s : String) : Prop := ∀ c ∈ s.toList, c ∉ ['"', '\'', '`', '‘', '’']

instance : DecidablePred Unquoted := fun s =>
  inferInstanceAs (Decidable (∀ c ∈ s.toList, c ∉ ['"', '\'', '`', '‘', '’']))

namespace Line

def text : Line → String
  | plain s => s
  | reference before opening name closing after =>
    before ++ "undefined reference to " ++ opening.toString ++ name ++ closing.toString ++ after
  | modpost before name module after =>
    before ++ "\"" ++ name ++ "\" [" ++ module ++ "] undefined!" ++ after

/-- The symbol that a line calls undefined. -/
def name? : Line → Option String
  | plain _ => none
  | reference _ _ name _ _ => some name
  | modpost _ name _ _ => some name

/-- The only quotes are those of the diagnostic. -/
def IsProper : Line → Prop
  | plain s => Unquoted s
  | reference before opening name closing after =>
    opening ∈ ['`', '\'', '‘'] ∧ closing ∈ ['\'', '’'] ∧ name ≠ "" ∧
      Unquoted before ∧ Unquoted name ∧ Unquoted after
  | modpost before name module after =>
    name ≠ "" ∧ module ≠ "" ∧ ']' ∉ module.toList ∧
      Unquoted before ∧ Unquoted name ∧ Unquoted module ∧ Unquoted after

instance : DecidablePred IsProper
  | plain s => inferInstanceAs (Decidable (Unquoted s))
  | reference before opening name closing after => inferInstanceAs (Decidable
      (opening ∈ ['`', '\'', '‘'] ∧ closing ∈ ['\'', '’'] ∧ name ≠ "" ∧
        Unquoted before ∧ Unquoted name ∧ Unquoted after))
  | modpost before name module after => inferInstanceAs (Decidable
      (name ≠ "" ∧ module ≠ "" ∧ ']' ∉ module.toList ∧
        Unquoted before ∧ Unquoted name ∧ Unquoted module ∧ Unquoted after))

end Line

section Find

variable {p : Pattern} {before cs found name after : List Char}

theorem findFrom_skip (p : Pattern) (xs ys : List Char) :
    findFrom p xs.length (xs ++ ys) = find p ys := by
  induction xs with
  | nil => rfl
  | cons x xs ih => exact ih

/-- What stands before the first match is passed over. -/
theorem find_append (h : ∀ xs, xs <:+ before → xs ≠ [] → p (xs ++ cs) = none) :
    find p (before ++ cs) = find p cs := by
  induction before with
  | nil => rfl
  | cons c before ih =>
    have hfirst : p (c :: (before ++ cs)) = none := h (c :: before) (List.suffix_refl _) (by simp)
    rw [List.cons_append, find, findFrom, hfirst]
    exact ih fun xs hxs hne => h xs (hxs.trans (List.suffix_cons _ _)) hne

theorem find_none (h : ∀ xs, xs <:+ cs → xs ≠ [] → p xs = none) : find p cs = [] := by
  have hpassed : find p (cs ++ []) = find p [] := find_append fun xs hxs hne => by
    rw [List.append_nil]
    exact h xs hxs hne
  rwa [List.append_nil] at hpassed

/-- The search goes on behind a match. -/
theorem find_match (p : Pattern) (found name after : List Char)
    (hne : found ≠ []) (hp : p (found ++ after) = some (name, after)) :
    find p (found ++ after) = name :: find p after := by
  cases found with
  | nil => exact absurd rfl hne
  | cons c found =>
    have hlen : (c :: (found ++ after)).length - after.length - 1 = found.length := by
      simp only [List.length_cons, List.length_append]
      omega
    rw [List.cons_append] at hp ⊢
    rw [find, findFrom, hp]
    dsimp only
    rw [hlen, findFrom_skip]

end Find

theorem cut_at {p : Char → Bool} {xs : List Char} {e : Char} (hxs : ∀ c ∈ xs, p c = true)
    (he : p e = false) (ys : List Char) :
    (xs ++ e :: ys).takeWhile p = xs ∧ (xs ++ e :: ys).dropWhile p = e :: ys := by
  have hne : ¬ p e = true := by simp [he]
  rw [List.takeWhile_append_of_pos hxs, List.dropWhile_append_of_pos hxs,
    List.takeWhile_cons_of_neg hne, List.dropWhile_cons_of_neg hne, List.append_nil]
  exact ⟨rfl, rfl⟩

section Reference

variable {cs name after : List Char} {q e : Char}

/-- The opening quote of a match has 23 characters before it. -/
theorem reference_none (h : ∀ q, cs[23]? = some q → isOpening q = false) : reference cs = none := by
  unfold reference
  rcases hr : Text.after? "undefined reference to ".toList cs with _ | _ | ⟨q, r⟩
  · rfl
  · rfl
  · have hq : isOpening q = false := by
      apply h
      rw [Text.after?_some hr]
      rfl
    simp only [Option.bind_eq_bind, Option.bind_some, hq, Bool.false_and]
    split <;> rfl

theorem find_reference_none (h : ∀ c ∈ cs, isOpening c = false) : find reference cs = [] := by
  refine find_none fun xs hxs _ => reference_none fun q hq => h q ?_
  exact hxs.subset (List.mem_of_getElem? hq)

theorem reference_found (hq : isOpening q = true) (he : isClosing e = true) (hne : name ≠ [])
    (hname : ∀ c ∈ name, c ∉ ['"', '\'', '`', '‘', '’']) :
    reference ("undefined reference to ".toList ++ q :: (name ++ e :: after)) = some (name, after) := by
  have hin : ∀ c ∈ name, (c ≠ '`' && c ≠ '\'' && c ≠ '’') = true := by
    intro c hc
    have := hname c hc
    simp_all
  have hend : (e ≠ '`' && e ≠ '\'' && e ≠ '’') = false := by
    simp only [isClosing, Bool.or_eq_true, decide_eq_true_eq] at he
    rcases he with rfl | rfl <;> rfl
  obtain ⟨htake, hdrop⟩ := cut_at hin hend after
  unfold reference
  rw [Text.after?_append]
  simp only [Option.bind_eq_bind, Option.bind_some, htake, hdrop]
  simp [hq, he, hne]

end Reference

section Modpost

variable {cs name module after : List Char}

theorem modpost_none (h : cs.head? ≠ some '"') : modpost cs = none := by
  cases cs with
  | nil => rfl
  | cons c cs =>
    have hc : '"' ≠ c := fun hc => h (by rw [hc]; rfl)
    unfold modpost
    rw [Text.after?, if_neg hc]
    rfl

theorem find_modpost_none (h : '"' ∉ cs) : find modpost cs = [] := by
  refine find_none fun xs hxs _ => modpost_none fun hhead => h ?_
  exact hxs.subset (List.mem_of_head? hhead)

theorem modpost_found (hne : name ≠ []) (hne' : module ≠ []) (hname : '"' ∉ name)
    (hmodule : ']' ∉ module) :
    modpost ('"' :: (name ++ ("\" [".toList ++ (module ++ ("] undefined!".toList ++ after))))) =
      some (name, after) := by
  have hin : ∀ c ∈ name, decide (c ≠ '"') = true := by
    intro c hc
    rw [decide_eq_true_eq]
    rintro rfl
    exact hname hc
  have hinside : ∀ c ∈ module, decide (c ≠ ']') = true := by
    intro c hc
    rw [decide_eq_true_eq]
    rintro rfl
    exact hmodule hc
  obtain ⟨htake, hdrop⟩ := cut_at hin (e := '"') rfl
    (" [".toList ++ (module ++ ("] undefined!".toList ++ after)))
  obtain ⟨htake', hdrop'⟩ := cut_at hinside (e := ']') rfl (" undefined!".toList ++ after)
  have hquote : "\" [".toList = '"' :: " [".toList := rfl
  have hbracket : "] undefined!".toList = ']' :: " undefined!".toList := rfl
  rw [← List.cons_append, ← hquote] at htake hdrop
  rw [← List.cons_append, ← hbracket] at htake' hdrop'
  unfold modpost
  rw [Text.after?, if_pos rfl, Text.after?]
  simp only [Option.bind_eq_bind, Option.bind_some, htake, hdrop, Text.after?_append, htake', hdrop']
  simp [hne, hne']

end Modpost

section Lines

variable {before opening name closing after module s : String}

theorem Unquoted.unopened (h : Unquoted s) : ∀ c ∈ s.toList, isOpening c = false := by
  intro c hc
  have hquote := h c hc
  simp only [List.mem_cons, not_or] at hquote
  simp [isOpening, hquote]

theorem Unquoted.quote (h : Unquoted s) : '"' ∉ s.toList := fun hc => h _ hc (by simp)

theorem find_plain (h : Unquoted s) : find reference s.toList = [] ∧ find modpost s.toList = [] :=
  ⟨find_reference_none h.unopened, find_modpost_none h.quote⟩

theorem find_reference {q e : Char} (hq : q ∈ ['`', '\'', '‘']) (he : e ∈ ['\'', '’'])
    (hne : name ≠ "") (hbefore : Unquoted before) (hname : Unquoted name) (hafter : Unquoted after) :
    find reference (before.toList ++ ("undefined reference to ".toList ++
      q :: (name.toList ++ e :: after.toList))) = [name.toList] := by
  have hopening : isOpening q = true := by simpa [isOpening, or_assoc] using hq
  have hclosing : isClosing e = true := by simpa [isClosing] using he
  have hfirst : ∀ xs, xs <:+ before.toList → xs ≠ [] → reference (xs ++
      ("undefined reference to ".toList ++ q :: (name.toList ++ e :: after.toList))) = none := by
    intro xs hxs hne
    refine reference_none fun c hc => ?_
    -- the place of an opening quote is still within the text before the first one
    have hlen : 23 < (xs ++ "undefined reference to ".toList).length := by
      have := List.length_pos_iff.2 hne
      rw [List.length_append, show "undefined reference to ".toList.length = 23 from rfl]
      omega
    rw [← List.append_assoc, List.getElem?_append_left hlen] at hc
    rcases List.mem_append.1 (List.mem_of_getElem? hc) with hc | hc
    · exact hbefore.unopened c (hxs.subset hc)
    · have hlit : ∀ c ∈ "undefined reference to ".toList, isOpening c = false := by decide
      exact hlit c hc
  have hmatch := find_match reference
    ("undefined reference to ".toList ++ q :: (name.toList ++ [e])) name.toList after.toList (by simp)
    (by simpa using reference_found hopening hclosing (by simpa using hne) hname)
  rw [find_append hfirst]
  rw [(find_plain hafter).1] at hmatch
  simpa using hmatch

theorem find_modpost (hne : name ≠ "") (hne' : module ≠ "") (hbracket : ']' ∉ module.toList)
    (hbefore : Unquoted before) (hname : Unquoted name) (hafter : Unquoted after) :
    find modpost (before.toList ++ '"' :: (name.toList ++ ("\" [".toList ++
      (module.toList ++ ("] undefined!".toList ++ after.toList))))) = [name.toList] := by
  have hfirst : ∀ xs, xs <:+ before.toList → xs ≠ [] → modpost (xs ++ '"' :: (name.toList ++
      ("\" [".toList ++ (module.toList ++ ("] undefined!".toList ++ after.toList))))) = none := by
    intro xs hxs hne
    cases xs with
    | nil => exact absurd rfl hne
    | cons c xs =>
      refine modpost_none fun hc => hbefore.quote ?_
      cases hc
      exact hxs.subset List.mem_cons_self
  have hmatch := find_match modpost
    ('"' :: (name.toList ++ ("\" [".toList ++ (module.toList ++ "] undefined!".toList))))
    name.toList after.toList (by simp)
    (by simpa using modpost_found (by simpa using hne) (by simpa using hne') hname.quote hbracket)
  rw [find_append hfirst]
  rw [(find_plain hafter).2] at hmatch
  simpa using hmatch

/-- What is found in a line is the name that was written into it. -/
theorem find_text {l : Line} (h : l.IsProper) :
    find reference l.text.toList ++ find modpost l.text.toList =
      l.name?.toList.map String.toList := by
  cases l with
  | plain s =>
    rw [Line.text, (find_plain h).1, (find_plain h).2]
    rfl
  | reference before q name e after =>
    obtain ⟨hq, he, hne, hbefore, hname, hafter⟩ := h
    have htext : (Line.reference before q name e after).text.toList = before.toList ++
        ("undefined reference to ".toList ++ q :: (name.toList ++ e :: after.toList)) := by
      simp [Line.text]
    have hmodpost : find modpost (Line.reference before q name e after).text.toList = [] := by
      refine find_modpost_none ?_
      have hq' : '"' ≠ q := by rintro rfl; simp at hq
      have he' : '"' ≠ e := by rintro rfl; simp at he
      have hlit : '"' ∉ "undefined reference to ".toList := by decide
      simp only [htext, List.mem_append, List.mem_cons, not_or]
      exact ⟨hbefore.quote, hlit, hq', hname.quote, he', hafter.quote⟩
    rw [hmodpost, htext, find_reference hq he hne hbefore hname hafter]
    rfl
  | modpost before name module after =>
    obtain ⟨hne, hne', hbracket, hbefore, hname, hmodule, hafter⟩ := h
    have htext : (Line.modpost before name module after).text.toList = before.toList ++
        '"' :: (name.toList ++ ("\" [".toList ++
          (module.toList ++ ("] undefined!".toList ++ after.toList)))) := by
      simp [Line.text]
    have hreference : find reference (Line.modpost before name module after).text.toList = [] := by
      refine find_reference_none ?_
      have hlit : ∀ c ∈ "\" [".toList, isOpening c = false := by decide
      have hlit' : ∀ c ∈ "] undefined!".toList, isOpening c = false := by decide
      simp only [htext, List.forall_mem_append, List.forall_mem_cons]
      exact ⟨hbefore.unopened, rfl, hname.unopened, hlit, hmodule.unopened, hlit', hafter.unopened⟩
    rw [hreference, htext, find_modpost hne hne' hbracket hbefore hname hafter]
    rfl

end Lines

theorem nodup_eraseDups (ss : List String) : ss.eraseDups.Nodup := by
  induction hn : ss.length using Nat.strongRecOn generalizing ss with
  | _ n ih =>
    cases ss with
    | nil => simp
    | cons s ss =>
      have hlen : (ss.filter fun x => !x == s).length < n := by
        have := List.length_filter_le (fun x => !x == s) ss
        rw [← hn, List.length_cons]
        omega
      rw [List.eraseDups_cons, List.nodup_cons, List.mem_eraseDups]
      exact ⟨by simp, ih _ hlen _ rfl⟩

theorem mem_undefined (ls : List String) (s : String) : s ∈ undefined ls ↔
    ∃ l ∈ ls, s.toList ∈ find reference l.toList ++ find modpost l.toList := by
  rw [undefined, List.mem_mergeSort, List.mem_eraseDups, List.mem_flatMap]
  refine exists_congr fun l => and_congr_right fun _ => ?_
  rw [List.mem_map]
  constructor
  · rintro ⟨cs, hcs, rfl⟩
    rwa [String.toList_ofList]
  · exact fun hs => ⟨_, hs, String.ofList_toList⟩

/-- The symbols that a build's output calls undefined are those that were written into it, each told
once. -/
theorem undefined_text (ls : List Line) (h : ∀ l ∈ ls, l.IsProper) :
    (undefined (ls.map Line.text)).Nodup ∧
      ∀ s, s ∈ undefined (ls.map Line.text) ↔ s ∈ ls.filterMap Line.name? := by
  constructor
  · rw [undefined]
    exact (List.mergeSort_perm _ _).nodup_iff.2 (nodup_eraseDups _)
  · intro s
    rw [mem_undefined, List.mem_filterMap]
    constructor
    · rintro ⟨_, hl, hs⟩
      obtain ⟨l, hmem, rfl⟩ := List.mem_map.1 hl
      rw [find_text (h l hmem), List.mem_map] at hs
      obtain ⟨n, hn, heq⟩ := hs
      rw [← String.toList_inj.1 heq]
      exact ⟨l, hmem, Option.mem_toList.1 hn⟩
    · rintro ⟨l, hl, hs⟩
      refine ⟨l.text, List.mem_map_of_mem hl, ?_⟩
      rw [find_text (h l hl), hs]
      exact List.mem_singleton_self _

/-- A mark of the linker within a name and before one, and one symbol told by both tools. -/
def sample : List Line := [
  .plain "ld: undefined reference to nothing",
  .reference "fork.c:7: undefined reference to " '‘' "to undefined reference to " '\'' "; more",
  .reference "" '\'' "foo" '’' "",
  .modpost "ERROR: modpost: " "foo" "drivers/x [y" " [z] undefined!"]

theorem undefined_text_sample : (∀ l ∈ sample, l.IsProper) ∧
    "foo" ∈ undefined (sample.map Line.text) ∧ "nothing" ∉ undefined (sample.map Line.text) := by
  have hproper : ∀ l ∈ sample, l.IsProper := by decide
  obtain ⟨-, hmem⟩ := undefined_text sample hproper
  refine ⟨hproper, (hmem _).2 ?_, fun hno => ?_⟩
  · decide
  · exact absurd ((hmem _).1 hno) (by decide)

end Hotpatch.Diagnostic
