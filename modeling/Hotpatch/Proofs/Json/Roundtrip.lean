import Hotpatch.Proofs.Json.Reals

/-! JSON text that is written over several lines is read as the value it was written for. The value may
not be nested too deeply, its integers may not be too long, its other numbers have to be such as are
read, and no name may stand twice in one of its objects: other values don't come back. -/

namespace Hotpatch.Json

/-- A value that comes back from its text, where so many brackets may still be opened: no integer in it
that is too long, no other number that isn't kept as it is, no name twice in an object. -/
inductive IsPlain : Nat → Json → Prop
  | null {depth : Nat} : IsPlain depth .null
  | bool {depth : Nat} (b : Bool) : IsPlain depth (.bool b)
  | int {depth : Nat} {n : Int} (hn : n.natAbs < 10 ^ longest) : IsPlain depth (.int n)
  | real {depth : Nat} {x : Binary64} (hx : x.IsKept) : IsPlain depth (.real x)
  | str {depth : Nat} (s : String) : IsPlain depth (.str s)
  | arr {depth : Nat} {js : List Json} (hjs : ∀ j ∈ js, IsPlain depth j) :
    IsPlain (depth + 1) (.arr js)
  | obj {depth : Nat} {ms : List (String × Json)} (hnames : (ms.map Prod.fst).Nodup)
    (hms : ∀ m ∈ ms, IsPlain depth m.2) : IsPlain (depth + 1) (.obj ms)

variable {depth level : Nat} {j : Json} {js : List Json} {ms us : List (String × Json)}
  {c : Char} {cs r : List Char}

section Blanks

/-- Where a value begins there is no blank, and no list ends. -/
def Begins (cs : List Char) : Prop := ∃ c ∈ cs.head?, isSpace c = false ∧ c ≠ ']'

theorem Begins.of_cons (hspace : isSpace c = false) (hc : c ≠ ']') : Begins (c :: cs) :=
  ⟨c, rfl, hspace, hc⟩

theorem skip_cons (hc : isSpace c = false) : skip (c :: cs) = c :: cs := by
  rw [skip, List.dropWhile_cons_of_neg (by simp [hc])]

theorem Begins.skip (hcs : Begins cs) : Json.skip (cs ++ r) = cs ++ r := by
  obtain ⟨c, hhead, hspace, _⟩ := hcs
  obtain ⟨cs', rfl⟩ := List.head?_eq_some_iff.1 hhead
  exact skip_cons hspace

theorem Begins.append (hcs : Begins cs) (r : List Char) : Begins (cs ++ r) := by
  obtain ⟨c, hhead, hc⟩ := hcs
  exact ⟨c, by rw [List.head?_append, hhead]; rfl, hc⟩

theorem skip_newline (level : Nat) (cs : List Char) : skip (newline level ++ cs) = skip cs := by
  rw [skip, newline, List.cons_append, List.dropWhile_cons_of_pos rfl,
    List.dropWhile_append_of_pos]
  · rfl
  · intro c hc
    rw [List.eq_of_mem_replicate hc]
    rfl

theorem stops_newline (level : Nat) (cs : List Char) : Stops (newline level ++ cs) := by
  rintro c ⟨⟩
  decide

theorem stops_comma (cs : List Char) : Stops (',' :: cs) := by
  rintro c ⟨⟩
  decide

theorem Begins.of_digit (hc : isDigit c = true) : Begins (c :: cs) := by
  refine .of_cons ?_ (ne_of_isDigit hc (by decide))
  simp [isSpace, ne_of_isDigit hc (by decide : isDigit ' ' = false),
    ne_of_isDigit hc (by decide : isDigit '\t' = false),
    ne_of_isDigit hc (by decide : isDigit '\n' = false),
    ne_of_isDigit hc (by decide : isDigit '\r' = false)]

/-- A value begins with a mark, a letter or a digit. -/
theorem IsPlain.begins (hj : IsPlain depth j) (level : Nat) : Begins (indentedChars level j) := by
  cases hj with
  | null => exact .of_cons (by decide) (by decide)
  | bool b => cases b <;> exact .of_cons (by decide) (by decide)
  | str s => exact .of_cons (by decide) (by decide)
  | @int _ n hn =>
    obtain ⟨c, cs, hcs, hc⟩ := exists_toString n
    have hchars : indentedChars level (.int n) = c :: cs := hcs
    rw [hchars]
    rcases hc with rfl | hc
    · exact .of_cons (by decide) (by decide)
    · exact .of_digit hc
  | @real _ x hx =>
    obtain ⟨⟨c, cs, hcs, hc⟩, -⟩ := atom_real hx
    have hchars : indentedChars level (.real x) = c :: cs := hcs
    rw [hchars]
    rcases hc with rfl | rfl | rfl | hc
    · exact .of_cons (by decide) (by decide)
    · exact .of_cons (by decide) (by decide)
    · exact .of_cons (by decide) (by decide)
    · exact .of_digit hc
  | arr hjs =>
    rename_i js
    cases js <;> exact .of_cons (by decide) (by decide)
  | obj hnames hms =>
    rename_i ms
    cases ms <;> exact .of_cons (by decide) (by decide)

end Blanks

section Reading

/-- With as much fuel as its text is long, a value is read to its end and no further. -/
def Returns (depth : Nat) (j : Json) : Prop :=
  ∀ level n r, Stops r → (indentedChars level j).length < n →
    readValue depth n (indentedChars level j ++ r) = .ok (j, r)

theorem readItems_indented (hjs : ∀ j ∈ js, Returns depth j ∧ ∀ level, Begins (indentedChars level j))
    (hne : js ≠ []) (level l : Nat) {n : Nat} (r : List Char)
    (hn : (indentedItems level js).length < n) :
    readItems depth n (skip (indentedItems level js ++ (newline l ++ ']' :: r))) = .ok (js, r) := by
  induction js generalizing n with
  | nil => exact absurd rfl hne
  | cons j js ih =>
    obtain ⟨hj, hbegins⟩ := hjs j List.mem_cons_self
    obtain ⟨n, rfl⟩ : ∃ k, n = k + 1 := ⟨n - 1, by omega⟩
    cases js with
    | nil =>
      have hlen : (indentedChars level j).length < n := by
        simp only [indentedItems, newline, List.length_append, List.length_cons] at hn
        omega
      rw [indentedItems, List.append_assoc, skip_newline, (hbegins level).skip, readItems,
        hj level n _ (stops_newline l _) hlen]
      dsimp only [bind, Except.bind]
      rw [skip_newline, skip_cons (by decide)]
      rfl
    | cons k ks =>
      have hlen : (indentedChars level j).length < n ∧ (indentedItems level (k :: ks)).length < n := by
        rw [indentedItems] at hn
        · simp only [newline, List.length_append, List.length_cons] at hn
          omega
        · exact List.cons_ne_nil k ks
      have hrest := ih (fun x hx => hjs x (List.mem_cons_of_mem j hx)) (List.cons_ne_nil k ks) hlen.2
      have htext : indentedItems level (j :: k :: ks) ++ (newline l ++ ']' :: r) =
          newline level ++ (indentedChars level j ++
            ',' :: (indentedItems level (k :: ks) ++ (newline l ++ ']' :: r))) := by
        rw [indentedItems]
        · simp only [List.append_assoc, List.cons_append]
        · exact List.cons_ne_nil k ks
      rw [htext, skip_newline, (hbegins level).skip, readItems,
        hj level n _ (stops_comma _) hlen.1]
      dsimp only [bind, Except.bind]
      rw [skip_cons (by decide)]
      simp only
      rw [hrest]
      rfl

theorem setMember_of_not_mem {k : String} (hk : k ∉ ms.map Prod.fst) :
    setMember k j ms = ms ++ [(k, j)] := by
  induction ms with
  | nil => rfl
  | cons m ms ih =>
    rw [List.map_cons, List.mem_cons, not_or] at hk
    rw [setMember, if_neg (Ne.symm hk.1), ih hk.2, List.cons_append]

/-- A member is read with what stands behind it: a brace ends the object, a comma another member
follows. -/
theorem readMembers_member {k : String} {n : Nat} (hj : Returns depth j)
    (hbegins : Begins (indentedChars level j)) (hk : k ∉ ms.map Prod.fst)
    (hlen : (indentedChars level j).length < n) (hr : Stops r) :
    (∀ r', skip r = '}' :: r' → readMembers depth (n + 1) ms
      (skip (newline level ++ (quote k ++ ':' :: ' ' :: (indentedChars level j ++ r)))) =
        .ok (ms ++ [(k, j)], r')) ∧
    ∀ r', skip r = ',' :: r' → readMembers depth (n + 1) ms
      (skip (newline level ++ (quote k ++ ':' :: ' ' :: (indentedChars level j ++ r)))) =
        readMembers depth n (ms ++ [(k, j)]) (skip r') := by
  have hquote : ∀ cs, quote k ++ cs = '"' :: (k.toList.flatMap escape ++ '"' :: cs) := by
    intro cs
    rw [quote, List.cons_append, List.cons_append, List.append_assoc]
    rfl
  have hblank : skip (' ' :: (indentedChars level j ++ r)) = indentedChars level j ++ r :=
    hbegins.skip
  have hvalue := hj level n r hr hlen
  constructor
  all_goals
    intro r' hend
    rw [skip_newline, hquote, skip_cons (by decide), readMembers, readText_quoted]
    dsimp only [bind, Except.bind]
    rw [skip_cons (by decide)]
    simp only
    rw [hblank, hvalue]
    simp only
    rw [hend, setMember_of_not_mem hk]
    rfl

theorem readMembers_indented
    (hus : ∀ m ∈ us, Returns depth m.2 ∧ ∀ level, Begins (indentedChars level m.2)) (hne : us ≠ [])
    (hnames : ((ms ++ us).map Prod.fst).Nodup) (level l : Nat) {n : Nat} (r : List Char)
    (hn : (indentedMembers level us).length < n) :
    readMembers depth n ms (skip (indentedMembers level us ++ (newline l ++ '}' :: r))) =
      .ok (ms ++ us, r) := by
  induction us generalizing n ms with
  | nil => exact absurd rfl hne
  | cons m us ih =>
    obtain ⟨k, j⟩ := m
    obtain ⟨hj, hbegins⟩ := hus (k, j) List.mem_cons_self
    obtain ⟨n, rfl⟩ : ∃ i, n = i + 1 := ⟨n - 1, by omega⟩
    have hfresh : k ∉ ms.map Prod.fst := by
      rw [List.map_append, List.nodup_append] at hnames
      exact fun hk => hnames.2.2 k hk k (by simp) rfl
    cases us with
    | nil =>
      have hlen : (indentedChars level j).length < n := by
        simp only [indentedMembers, newline, List.length_append, List.length_cons] at hn
        omega
      have htext : indentedMembers level [(k, j)] ++ (newline l ++ '}' :: r) = newline level ++
          (quote k ++ ':' :: ' ' :: (indentedChars level j ++ (newline l ++ '}' :: r))) := by
        simp only [indentedMembers, List.append_assoc, List.cons_append]
      rw [htext]
      apply (readMembers_member hj (hbegins level) hfresh hlen (stops_newline l _)).1
      rw [skip_newline, skip_cons (by decide)]
    | cons u us =>
      have hlen : (indentedChars level j).length < n ∧
          (indentedMembers level (u :: us)).length < n := by
        rw [indentedMembers] at hn
        · simp only [newline, List.length_append, List.length_cons] at hn
          omega
        · exact List.cons_ne_nil u us
      have htext : indentedMembers level ((k, j) :: u :: us) ++ (newline l ++ '}' :: r) =
          newline level ++ (quote k ++ ':' :: ' ' :: (indentedChars level j ++
            ',' :: (indentedMembers level (u :: us) ++ (newline l ++ '}' :: r)))) := by
        rw [indentedMembers]
        · simp only [List.append_assoc, List.cons_append]
        · exact List.cons_ne_nil u us
      have hrest := ih (fun x hx => hus x (List.mem_cons_of_mem _ hx)) (List.cons_ne_nil u us)
        (by rw [List.append_assoc ms [(k, j)]]; exact hnames) hlen.2
      rw [List.append_assoc] at hrest
      rw [htext, (readMembers_member hj (hbegins level) hfresh hlen.1 (stops_comma _)).2 _
        (skip_cons (by decide))]
      exact hrest

theorem begins_indentedItems (hj : Begins (indentedChars level j)) (js : List Json)
    (r : List Char) : Begins (skip (indentedItems level (j :: js) ++ r)) := by
  cases js with
  | nil =>
    rw [indentedItems, List.append_assoc, skip_newline, hj.skip]
    exact hj.append r
  | cons k ks =>
    rw [indentedItems, List.append_assoc, List.append_assoc, skip_newline, hj.skip]
    · exact hj.append _
    · exact List.cons_ne_nil k ks

theorem exists_indentedMembers (level : Nat) (m : String × Json) (ms : List (String × Json))
    (r : List Char) : ∃ cs, skip (indentedMembers level (m :: ms) ++ r) = '"' :: cs := by
  cases ms with
  | nil =>
    rw [indentedMembers, List.append_assoc, List.append_assoc, skip_newline]
    exact ⟨_, skip_cons (by decide)⟩
  | cons u us =>
    rw [indentedMembers, List.append_assoc, List.append_assoc, List.append_assoc, skip_newline]
    · exact ⟨_, skip_cons (by decide)⟩
    · exact List.cons_ne_nil u us

/-- A value that opens no bracket is read by what it begins with. -/
theorem readValue_scalar (hcs : ∀ c ∈ cs.head?, c ≠ '[' ∧ c ≠ '{') (n : Nat) :
    readValue depth (n + 1) cs = readScalar cs := by
  rw [readValue]
  · rintro r rfl
    exact (hcs '[' rfl).1 rfl
  · rintro r rfl
    exact (hcs '{' rfl).2 rfl

theorem readValue_items {n : Nat} (hcs : ∀ c ∈ (skip cs).head?, c ≠ ']') :
    readValue (depth + 1) (n + 1) ('[' :: cs) =
      (readItems depth n (skip cs)).map fun p => (arr p.1, p.2) := by
  rw [readValue, if_neg (Nat.succ_ne_zero depth), Nat.add_sub_cancel]
  split
  next heq => exact absurd rfl (hcs ']' (by rw [heq]; rfl))
  next => rfl

theorem readValue_members {n : Nat} (hcs : ∀ c ∈ (skip cs).head?, c ≠ '}') :
    readValue (depth + 1) (n + 1) ('{' :: cs) =
      (readMembers depth n [] (skip cs)).map fun p => (obj p.1, p.2) := by
  rw [readValue, if_neg (Nat.succ_ne_zero depth), Nat.add_sub_cancel]
  split
  next heq => exact absurd rfl (hcs '}' (by rw [heq]; rfl))
  next => rfl

theorem IsPlain.returns (hj : IsPlain depth j) : Returns depth j := by
  induction hj with
  | null =>
    intro level n r _ hn
    obtain ⟨n, rfl⟩ : ∃ k, n = k + 1 := ⟨n - 1, by omega⟩
    rw [readValue_scalar (by rintro c ⟨⟩; decide)]
    rfl
  | bool b =>
    intro level n r _ hn
    obtain ⟨n, rfl⟩ : ∃ k, n = k + 1 := ⟨n - 1, by omega⟩
    cases b <;> rw [readValue_scalar (by rintro c ⟨⟩; decide)] <;> rfl
  | str s =>
    intro level n r _ hn
    obtain ⟨n, rfl⟩ : ∃ k, n = k + 1 := ⟨n - 1, by omega⟩
    have htext : indentedChars level (.str s) ++ r =
        '"' :: (s.toList.flatMap escape ++ '"' :: r) := by
      simp only [indentedChars, atom, quote, List.append_assoc, List.cons_append, List.nil_append]
    rw [htext, readValue_scalar (by rintro c ⟨⟩; decide), readScalar, readText_quoted]
    rfl
  | @int _ i hi =>
    intro level n r hr hn
    obtain ⟨n, rfl⟩ : ∃ k, n = k + 1 := ⟨n - 1, by omega⟩
    obtain ⟨c, cs, hcs, hc⟩ := exists_toString i
    have hread := readScalar_int hi hr
    have htext : indentedChars level (.int i) ++ r = c :: (cs ++ r) := by
      rw [← List.cons_append, ← hcs]
      rfl
    rw [hcs, List.cons_append] at hread
    rw [htext, readValue_scalar, hread]
    rintro d ⟨⟩
    rcases hc with rfl | hc
    · decide
    · exact ⟨ne_of_isDigit hc (by decide), ne_of_isDigit hc (by decide)⟩
  | @real _ x hx =>
    intro level n r hr hn
    obtain ⟨n, rfl⟩ : ∃ k, n = k + 1 := ⟨n - 1, by omega⟩
    obtain ⟨⟨c, cs, hcs, hc⟩, -⟩ := atom_real hx
    have hread := readScalar_real hx hr
    have htext : indentedChars level (.real x) ++ r = c :: (cs ++ r) := by
      rw [← List.cons_append, ← hcs]
      rfl
    rw [hcs, List.cons_append] at hread
    rw [htext, readValue_scalar, hread]
    rintro d ⟨⟩
    rcases hc with rfl | rfl | rfl | hc
    · decide
    · decide
    · decide
    · exact ⟨ne_of_isDigit hc (by decide), ne_of_isDigit hc (by decide)⟩
  | @arr depth js hjs ih =>
    intro level n r _ hn
    obtain ⟨n, rfl⟩ : ∃ k, n = k + 1 := ⟨n - 1, by omega⟩
    cases js with
    | nil => rfl
    | cons j js =>
      have hlen : (indentedItems (level + 1) (j :: js)).length < n := by
        simp only [indentedChars, newline, List.length_append, List.length_cons] at hn
        omega
      have hread := readItems_indented (fun x hx => ⟨ih x hx, (hjs x hx).begins⟩)
        (List.cons_ne_nil j js) (level + 1) level r hlen
      have htext : indentedChars level (.arr (j :: js)) ++ r =
          '[' :: (indentedItems (level + 1) (j :: js) ++ (newline level ++ ']' :: r)) := by
        simp only [indentedChars, List.append_assoc, List.cons_append, List.nil_append]
      rw [htext, readValue_items, hread]
      · rfl
      · obtain ⟨c, hc, _, hne⟩ :=
          begins_indentedItems ((hjs j List.mem_cons_self).begins (level + 1)) js _
        rintro d hd rfl
        exact hne (Option.mem_unique hc hd)
  | @obj depth ms hnames hms ih =>
    intro level n r _ hn
    obtain ⟨n, rfl⟩ : ∃ k, n = k + 1 := ⟨n - 1, by omega⟩
    cases ms with
    | nil => rfl
    | cons m ms =>
      have hlen : (indentedMembers (level + 1) (m :: ms)).length < n := by
        simp only [indentedChars, newline, List.length_append, List.length_cons] at hn
        omega
      have hread : readMembers depth n [] (skip (indentedMembers (level + 1) (m :: ms) ++
          (newline level ++ '}' :: r))) = .ok (m :: ms, r) :=
        readMembers_indented (fun x hx => ⟨ih x hx, (hms x hx).begins⟩) (List.cons_ne_nil m ms)
          hnames (level + 1) level r hlen
      have htext : indentedChars level (.obj (m :: ms)) ++ r =
          '{' :: (indentedMembers (level + 1) (m :: ms) ++ (newline level ++ '}' :: r)) := by
        simp only [indentedChars, List.append_assoc, List.cons_append, List.nil_append]
      obtain ⟨cs, hcs⟩ := exists_indentedMembers (level + 1) m ms (newline level ++ '}' :: r)
      rw [htext, readValue_members, hread]
      · rfl
      · rw [hcs]
        rintro c ⟨⟩
        decide

/-- What is written over several lines is read as it was. -/
theorem IsPlain.parse (hj : IsPlain deepest j) : parse j.renderIndented = .ok j := by
  have hread := hj.returns 0 (2 * (indentedChars 0 j).length + 1) [] (fun c hc => absurd hc (by simp))
    (by omega)
  have hskip := (hj.begins 0).skip (r := [])
  rw [List.append_nil] at hread hskip
  rw [Json.parse, renderIndented, String.toList_ofList]
  dsimp only
  rw [hskip, hread]
  rfl

end Reading

section Lines

theorem hexDigit_ne : ∀ {n : Nat}, n < 16 → '\r' ≠ Text.hexDigit n := by
  decide

/-- What would end a line in another way than a line feed is escaped. -/
theorem not_mem_escape (c : Char) : '\r' ∉ escape c := by
  unfold escape
  repeat (split; · decide)
  split
  next h =>
    rw [List.mem_singleton]
    rintro rfl
    exact absurd h (by decide)
  next =>
    intro hmem
    obtain ⟨u, _, hu⟩ := List.mem_flatMap.1 hmem
    simp only [List.mem_cons, Text.hex, List.mem_map] at hu
    rcases hu with hu | hu | ⟨i, _, hu⟩
    · exact absurd hu (by decide)
    · exact absurd hu (by decide)
    · exact hexDigit_ne (Nat.mod_lt _ (by decide)) hu.symm

theorem not_mem_quote (s : String) : '\r' ∉ quote s := by
  simp only [quote, List.mem_append, List.mem_cons, List.mem_flatMap, List.not_mem_nil, or_false]
  rintro ((h | ⟨c, _, hc⟩) | h)
  · exact absurd h (by decide)
  · exact not_mem_escape c hc
  · exact absurd h (by decide)

theorem not_mem_newline (level : Nat) : '\r' ∉ newline level := by
  rw [newline, List.mem_cons, not_or]
  exact ⟨by decide, fun h => absurd (List.eq_of_mem_replicate h) (by decide)⟩

theorem not_mem_indentedItems (hjs : ∀ j ∈ js, ∀ level, '\r' ∉ indentedChars level j)
    (level : Nat) : '\r' ∉ indentedItems level js := by
  induction js with
  | nil => exact List.not_mem_nil
  | cons j js ih =>
    have hj := hjs j List.mem_cons_self level
    have hrest := ih fun k hk => hjs k (List.mem_cons_of_mem j hk)
    cases js with
    | nil => simp [indentedItems, not_mem_newline, hj]
    | cons k ks => simp [indentedItems, not_mem_newline, hj, hrest]

theorem not_mem_indentedMembers (hms : ∀ m ∈ ms, ∀ level, '\r' ∉ indentedChars level m.2)
    (level : Nat) : '\r' ∉ indentedMembers level ms := by
  induction ms with
  | nil => exact List.not_mem_nil
  | cons m ms ih =>
    have hm := hms m List.mem_cons_self level
    have hrest := ih fun k hk => hms k (List.mem_cons_of_mem m hk)
    cases ms with
    | nil => simp [indentedMembers, not_mem_newline, not_mem_quote, hm]
    | cons k ks => simp [indentedMembers, not_mem_newline, not_mem_quote, hm, hrest]

/-- The text of a value has no line ends but line feeds, so reading its lines leaves it as it is. -/
theorem IsPlain.feeds (hj : IsPlain depth j) : ∀ level, '\r' ∉ indentedChars level j := by
  induction hj with
  | null => exact fun _ => (by decide : '\r' ∉ "null".toList)
  | bool b =>
    cases b
    · exact fun _ => (by decide : '\r' ∉ "false".toList)
    · exact fun _ => (by decide : '\r' ∉ "true".toList)
  | str s => exact fun _ => not_mem_quote s
  | @int _ n =>
    intro level
    have hchars : indentedChars level (.int n) = (toString n).toList := rfl
    have hdigits : '\r' ∉ Nat.toDigits 10 n.natAbs :=
      fun h => absurd (isDigit_toDigits _ h) (by decide)
    rw [hchars, toList_toString]
    split
    · exact hdigits
    · simpa using hdigits
  | real hx => exact fun _ => (atom_real hx).2
  | @arr _ js _ ih =>
    intro level
    cases js with
    | nil => exact (by decide : '\r' ∉ ['[', ']'])
    | cons j js =>
      have hitems := not_mem_indentedItems ih (level + 1)
      simp [indentedChars, not_mem_newline, hitems]
  | @obj _ ms _ _ ih =>
    intro level
    cases ms with
    | nil => exact (by decide : '\r' ∉ ['{', '}'])
    | cons m ms =>
      have hmembers := not_mem_indentedMembers ih (level + 1)
      simp [indentedChars, not_mem_newline, hmembers]

end Lines

end Hotpatch.Json
