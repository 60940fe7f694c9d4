import Hotpatch.Proofs.Json.Roundtrip

/-! Texts that are nested too deeply. Reading finds a text so only where more brackets and braces open in it
than may be open at once, and wherever that many brackets open at its beginning. -/

namespace Hotpatch.Json

variable {α β : Type} {cs r : List Char} {depth n : Nat}

/-- How many brackets and braces open in a text. -/
def openings (cs : List Char) : Nat := cs.countP fun c => c = '[' || c = '{'

/-- A reading leaves an end of a text, and finds the text too deep only if enough opens in it. -/
structure Takes (depth : Nat) (cs : List Char) (x : Except Flaw (α × List Char)) : Prop where
  rest : ∀ {a r}, x = .ok (a, r) → r <:+ cs
  deep : x = .error .tooDeep → depth < openings cs

namespace Takes

variable {x : Except Flaw (α × List Char)}

theorem ok (hr : r <:+ cs) (a : α) : Takes depth cs (.ok (a, r)) := by
  refine ⟨fun h => ?_, fun h => ?_⟩
  · cases h
    exact hr
  · cases h

theorem error {f : Flaw} (hf : f ≠ .tooDeep) :
    Takes depth cs (.error f : Except Flaw (α × List Char)) := by
  refine ⟨fun h => ?_, fun h => absurd (Except.error.inj h) hf⟩
  cases h

theorem mono (hr : r <:+ cs) (hx : Takes depth r x) : Takes depth cs x :=
  ⟨fun h => (hx.rest h).trans hr, fun h => Nat.lt_of_lt_of_le (hx.deep h) hr.sublist.countP_le⟩

theorem bind {f : α × List Char → Except Flaw (β × List Char)} (hx : Takes depth cs x)
    (hf : ∀ a r, r <:+ cs → Takes depth r (f (a, r))) : Takes depth cs (x >>= f) := by
  cases x with
  | error e =>
    refine ⟨fun h => ?_, fun h => hx.deep ?_⟩
    · cases h
    · rw [Except.error.inj h]
  | ok p =>
    have hr : p.2 <:+ cs := hx.rest rfl
    exact (hf p.1 p.2 hr).mono hr

theorem map (hx : Takes depth cs x) (g : α → β) :
    Takes depth cs (x.map fun p => (g p.1, p.2)) := by
  cases x with
  | error e =>
    refine ⟨fun h => ?_, fun h => hx.deep ?_⟩
    · cases h
    · rw [Except.error.inj h]
  | ok p => exact .ok (hx.rest rfl) _

/-- What opens a value counts once more than what is inside. -/
theorem opened {c : Char} (hc : (c = '[' || c = '{') = true)
    (hx : ∀ d, depth = d + 1 → Takes d r x) :
    Takes depth (c :: r) (if depth = 0 then .error .tooDeep else x) := by
  have hcount : openings (c :: r) = openings r + 1 := List.countP_cons_of_pos hc
  split
  next hdepth =>
    refine ⟨fun h => ?_, fun _ => ?_⟩
    · cases h
    · omega
  next hdepth =>
    obtain ⟨d, rfl⟩ := Nat.exists_eq_succ_of_ne_zero hdepth
    have hd := hx d rfl
    refine ⟨fun h => (hd.rest h).trans (List.suffix_cons c r), fun h => ?_⟩
    rw [hcount]
    exact Nat.succ_lt_succ (hd.deep h)

end Takes

section Scalars

theorem suffix_of_stringUnits {us : List Nat} (h : stringUnits cs = some (us, r)) : r <:+ cs := by
  fun_induction stringUnits cs generalizing us r with
  | case1 => cases h
  | case2 t =>
    cases h
    exact List.suffix_cons _ _
  | case3 a b c d t ih =>
    obtain ⟨_, -, h⟩ := Option.bind_eq_some_iff.1 h
    obtain ⟨_, -, h⟩ := Option.bind_eq_some_iff.1 h
    obtain ⟨_, -, h⟩ := Option.bind_eq_some_iff.1 h
    obtain ⟨_, -, h⟩ := Option.bind_eq_some_iff.1 h
    obtain ⟨_, ht, h⟩ := Option.bind_eq_some_iff.1 h
    cases h
    exact (ih ht).trans ⟨['\\', 'u', a, b, c, d], rfl⟩
  | case4 e t _ ih =>
    obtain ⟨_, -, h⟩ := Option.bind_eq_some_iff.1 h
    obtain ⟨_, ht, h⟩ := Option.bind_eq_some_iff.1 h
    cases h
    exact (ih ht).trans ⟨['\\', e], rfl⟩
  | case5 => cases h
  | case6 c t _ _ _ _ ih =>
    obtain ⟨_, ht, h⟩ := Option.bind_eq_some_iff.1 h
    cases h
    exact (ih ht).trans (List.suffix_cons c t)

theorem readText_takes : Takes depth cs (readText cs) := by
  rw [readText, string?]
  cases h : stringUnits cs with
  | none => exact .error (by decide)
  | some p => exact .ok (suffix_of_stringUnits h) _

theorem readWord_takes (word : String) (j : Json) : Takes depth cs (readWord word j cs) := by
  rw [readWord]
  split
  · exact .ok (List.drop_suffix _ _) _
  · exact .error (by decide)

theorem suffix_of_fraction? {ds : List Char} (h : fraction? cs = some (ds, r)) : r <:+ cs := by
  unfold fraction? at h
  split at h
  · dsimp only at h
    split at h
    · cases h
    · cases h
      exact (List.dropWhile_suffix _).trans (List.suffix_cons _ _)
  · cases h

theorem suffix_of_exponent? {e : Int} (h : exponent? cs = some (e, r)) : r <:+ cs := by
  have hends : ∀ (sign : Int) t, (if (t.takeWhile isDigit).isEmpty then none
      else some (sign * number (t.takeWhile isDigit), t.dropWhile isDigit)) = some (e, r) →
      r <:+ t := by
    intro sign t ht
    split at ht
    · cases ht
    · cases ht
      exact List.dropWhile_suffix _
  unfold exponent? at h
  split at h
  · split at h
    · dsimp only at h
      split at h
      · exact (hends _ _ h).trans ⟨[_, _], rfl⟩
      · exact (hends _ _ h).trans ⟨[_, _], rfl⟩
      · exact (hends _ _ h).trans (List.suffix_cons _ _)
    · cases h
  · cases h

theorem readInteger_takes (negative : Bool) (ds : List Char) :
    Takes depth cs (readInteger negative ds cs) := by
  rw [readInteger]
  split
  · exact .error (by simp)
  · exact .ok List.suffix_rfl _

theorem readNumber_takes (negative : Bool) : Takes depth cs (readNumber negative cs) := by
  unfold readNumber
  lift_lets
  intro ds
  split
  · exact .error (by decide)
  · refine .mono (List.drop_suffix ds.length cs) ?_
    cases hfraction : fraction? (cs.drop ds.length) with
    | none =>
      dsimp only
      cases hexponent : exponent? (cs.drop ds.length) with
      | none => exact readInteger_takes negative ds
      | some p => exact .ok (suffix_of_exponent? hexponent) _
    | some q =>
      dsimp only
      cases hexponent : exponent? q.2 with
      | none => exact .ok (suffix_of_fraction? hfraction) _
      | some p =>
        exact .ok ((suffix_of_exponent? hexponent).trans (suffix_of_fraction? hfraction)) _

theorem readScalar_takes : Takes depth cs (readScalar cs) := by
  unfold readScalar
  split
  · exact (readText_takes.map _).mono (List.suffix_cons _ _)
  · exact readWord_takes _ _
  · exact readWord_takes _ _
  · exact readWord_takes _ _
  · exact readWord_takes _ _
  · exact readWord_takes _ _
  · exact readWord_takes _ _
  · exact (readNumber_takes true).mono (List.suffix_cons _ _)
  · exact readNumber_takes false

end Scalars

section Values

theorem skip_suffix (cs : List Char) : skip cs <:+ cs := List.dropWhile_suffix _

theorem suffix_of_skip {c : Char} (h : skip cs = c :: r) : r <:+ cs := by
  have hrest : r <:+ skip cs := h ▸ List.suffix_cons c r
  exact hrest.trans (skip_suffix cs)

/-- What reading with so much fuel does to a text. -/
structure AllTake (n : Nat) : Prop where
  value : ∀ depth cs, Takes depth cs (readValue depth n cs)
  items : ∀ depth cs, Takes depth cs (readItems depth n cs)
  members : ∀ depth ms cs, Takes depth cs (readMembers depth n ms cs)

theorem AllTake.nextValue (hn : AllTake n) (depth : Nat) (cs : List Char) :
    Takes depth cs (readValue depth (n + 1) cs) := by
  unfold readValue
  split
  · next r =>
    refine .opened rfl fun d hd => ?_
    split
    next hskip => exact .ok (suffix_of_skip hskip) _
    next =>
      rw [hd]
      exact .mono (skip_suffix r) ((hn.items d _).map _)
  · next r =>
    refine .opened rfl fun d hd => ?_
    split
    next hskip => exact .ok (suffix_of_skip hskip) _
    next =>
      rw [hd]
      exact .mono (skip_suffix r) ((hn.members d _ _).map _)
  · exact readScalar_takes

theorem AllTake.nextItems (hn : AllTake n) (depth : Nat) (cs : List Char) :
    Takes depth cs (readItems depth (n + 1) cs) := by
  rw [readItems]
  refine (hn.value depth cs).bind fun j r _ => ?_
  dsimp only
  split
  · next s hskip =>
    refine .mono ((skip_suffix s).trans (suffix_of_skip hskip)) ?_
    exact (hn.items depth _).bind fun js r' _ => .ok List.suffix_rfl _
  · next s hskip => exact .ok (suffix_of_skip hskip) _
  · exact .error (by decide)

theorem AllTake.nextMembers (hn : AllTake n) (depth : Nat) (ms : List (String × Json))
    (cs : List Char) : Takes depth cs (readMembers depth (n + 1) ms cs) := by
  unfold readMembers
  split
  · next r =>
    refine .mono (List.suffix_cons _ _) (readText_takes.bind fun k r' _ => ?_)
    dsimp only
    split
    · next s hskip =>
      refine .mono ((skip_suffix s).trans (suffix_of_skip hskip)) ?_
      refine (hn.value depth _).bind fun j s' _ => ?_
      dsimp only
      split
      · next u hskip' =>
        exact .mono ((skip_suffix u).trans (suffix_of_skip hskip')) (hn.members depth _ _)
      · next u hskip' => exact .ok (suffix_of_skip hskip') _
      · exact .error (by decide)
    · exact .error (by decide)
  · exact .error (by decide)

theorem allTake (n : Nat) : AllTake n := by
  induction n with
  | zero =>
    refine ⟨fun _ _ => ?_, fun _ _ => ?_, fun _ _ _ => ?_⟩
    · rw [readValue]
      exact .error (by decide)
    · rw [readItems]
      exact .error (by decide)
    · rw [readMembers]
      exact .error (by decide)
  | succ n ih => exact ⟨ih.nextValue, ih.nextItems, ih.nextMembers⟩

/-- A text is too deep only if more opens in it than may be open at once. -/
theorem openings_of_parse {s : String} (h : parse s = .error .tooDeep) :
    deepest < openings s.toList := by
  have htakes := (allTake (2 * s.toList.length + 1)).value deepest (skip s.toList)
  rw [parse] at h
  dsimp only at h
  cases hread : readValue deepest (2 * s.toList.length + 1) (skip s.toList) with
  | error f =>
    rw [hread] at h
    cases h
    exact Nat.lt_of_lt_of_le (htakes.deep hread) (skip_suffix _).sublist.countP_le
  | ok p =>
    rw [hread] at h
    simp only [bind, Except.bind] at h
    split at h
    · cases h
    · cases h

end Values

section Nested

variable {k : Nat}

theorem skip_nested (k : Nat) (rest : List Char) :
    skip (List.replicate (k + 1) '[' ++ rest) = List.replicate (k + 1) '[' ++ rest := by
  rw [List.replicate_succ, List.cons_append, skip_cons (by decide)]

/-- Every bracket takes two steps of the reading. -/
theorem readValue_nested (rest : List Char) (hk : depth < k) (hn : 2 * depth < n) :
    readValue depth n (List.replicate k '[' ++ rest) = .error .tooDeep := by
  induction depth generalizing k n with
  | zero =>
    obtain ⟨k, rfl⟩ : ∃ m, k = m + 1 := ⟨k - 1, by omega⟩
    obtain ⟨n, rfl⟩ : ∃ m, n = m + 1 := ⟨n - 1, by omega⟩
    rw [List.replicate_succ, List.cons_append, readValue, if_pos rfl]
  | succ d ih =>
    obtain ⟨k, rfl⟩ : ∃ m, k = m + 2 := ⟨k - 2, by omega⟩
    obtain ⟨n, rfl⟩ : ∃ m, n = m + 2 := ⟨n - 2, by omega⟩
    have hinner : readValue d n (List.replicate (k + 1) '[' ++ rest) = .error .tooDeep :=
      ih (by omega) (by omega)
    rw [List.replicate_succ, List.cons_append, readValue_items, skip_nested, readItems, hinner]
    · rfl
    · rw [skip_nested]
      rintro c ⟨⟩
      decide

/-- Brackets at the beginning of a text are too deep wherever more of them open than may be open at once,
whatever follows. -/
theorem parse_nested (hk : deepest < k) (rest : List Char) :
    parse (String.ofList (List.replicate k '[' ++ rest)) = .error .tooDeep := by
  obtain ⟨k, rfl⟩ : ∃ m, k = m + 1 := ⟨k - 1, by omega⟩
  rw [parse, String.toList_ofList]
  dsimp only
  rw [skip_nested, readValue_nested rest hk]
  · rfl
  · rw [List.length_append, List.length_replicate]
    omega

end Nested

end Hotpatch.Json
