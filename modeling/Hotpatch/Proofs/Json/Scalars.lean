import Mathlib.Data.List.Basic
import Mathlib.Data.Nat.Digits.Defs
import Mathlib.Tactic.Ring
import Hotpatch.Json.Parser

/-! Texts and integers in JSON: each one is read as it was written, whatever stands behind it. A text ends
at its closing mark; a number ends where nothing stands that could belong to one. -/

namespace Hotpatch.Json

section Strings

theorem hexValue?_hexDigit : ∀ {n : Nat}, n < 16 → hexValue? (Text.hexDigit n) = some n := by
  decide

/-- Four hexadecimal digits give back the unit they were written for. -/
theorem stringUnits_hex {u : Nat} (hu : u < 0x10000) (r : List Char) :
    stringUnits ('\\' :: 'u' :: Text.hex 4 u ++ r) =
      (stringUnits r).map fun p => (u :: p.1, p.2) := by
  have hdigits : '\\' :: 'u' :: Text.hex 4 u ++ r =
      '\\' :: 'u' :: Text.hexDigit ((u >>> 12) % 16) :: Text.hexDigit ((u >>> 8) % 16) ::
        Text.hexDigit ((u >>> 4) % 16) :: Text.hexDigit ((u >>> 0) % 16) :: r := rfl
  have hsum : (u >>> 12) % 16 * 4096 + (u >>> 8) % 16 * 256 + (u >>> 4) % 16 * 16 +
      (u >>> 0) % 16 = u := by
    simp only [Nat.shiftRight_eq_div_pow]
    omega
  rw [hdigits, stringUnits]
  simp only [hexValue?_hexDigit (Nat.mod_lt _ (by decide : 0 < 16)), Option.bind_eq_bind,
    Option.bind_some, Option.pure_def, hsum]
  cases stringUnits r <;> rfl

/-- The units of characters of the basic plane stand alone, the others come in two halves. -/
theorem units_lt (c : Char) : ∀ u ∈ units c, u < 0x10000 := by
  have hvalid := c.valid
  have hn : c.toNat < 0x110000 := by
    rcases hvalid with h | ⟨_, h⟩
    · exact lt_trans h (by decide)
    · exact h
  intro u hu
  rw [units] at hu
  split at hu
  · simp only [List.mem_singleton] at hu
    omega
  · simp only [List.mem_cons, List.not_mem_nil, or_false] at hu
    omega

theorem stringUnits_hexes (us : List Nat) (hus : ∀ u ∈ us, u < 0x10000) (r : List Char) :
    stringUnits ((us.flatMap fun u => '\\' :: 'u' :: Text.hex 4 u) ++ r) =
      (stringUnits r).map fun p => (us ++ p.1, p.2) := by
  induction us with
  | nil => simp
  | cons u us ih =>
    rw [List.flatMap_cons, List.append_assoc, stringUnits_hex (hus u List.mem_cons_self),
      ih fun v hv => hus v (List.mem_cons_of_mem u hv), Option.map_map]
    rfl

/-- An escaped character is read as its units. -/
theorem stringUnits_escape (c : Char) (r : List Char) :
    stringUnits (escape c ++ r) = (stringUnits r).map fun p => (units c ++ p.1, p.2) := by
  have hletter : ∀ e u, unescape? e = some u → e ≠ 'u' → units c = [u] →
      stringUnits ('\\' :: e :: r) = (stringUnits r).map fun p => (units c ++ p.1, p.2) := by
    intro e u he hne hc
    rw [stringUnits, he, hc]
    · cases stringUnits r <;> rfl
    · rintro a b c' d r' rfl _
      exact hne rfl
  unfold escape
  split
  next h => exact hletter _ 34 rfl (by decide) (by rw [h]; rfl)
  split
  next h => exact hletter _ 92 rfl (by decide) (by rw [h]; rfl)
  split
  next h => exact hletter _ 10 rfl (by decide) (by rw [h]; rfl)
  split
  next h => exact hletter _ 13 rfl (by decide) (by rw [h]; rfl)
  split
  next h => exact hletter _ 9 rfl (by decide) (by rw [h]; rfl)
  split
  next h => exact hletter _ 8 rfl (by decide) (by rw [units, h]; rfl)
  split
  next h => exact hletter _ 12 rfl (by decide) (by rw [units, h]; rfl)
  split
  next hquote hslash _ _ _ _ _ h =>
    simp only [Bool.and_eq_true, decide_eq_true_eq] at h
    have hunits : units c = [c.toNat] := by
      rw [units, if_pos (by omega)]
    rw [List.singleton_append, stringUnits, if_neg (by omega), hunits]
    · cases stringUnits r <;> rfl
    · exact fun h => hquote h
    · exact fun _ _ _ _ _ h _ => hslash h
    · exact fun _ _ h _ => hslash h
  next => exact stringUnits_hexes _ (units_lt c) r

theorem stringUnits_quoted (cs r : List Char) :
    stringUnits (cs.flatMap escape ++ '"' :: r) = some (cs.flatMap units, r) := by
  induction cs with
  | nil => rfl
  | cons c cs ih =>
    rw [List.flatMap_cons, List.append_assoc, stringUnits_escape, ih]
    rfl

/-- The units of a character join to the character. -/
theorem joinUnits_units (c : Char) (us : List Nat) :
    joinUnits (units c ++ us) = c :: joinUnits us := by
  have hvalid : c.toNat < 0xd800 ∨ 0xdfff < c.toNat ∧ c.toNat < 0x110000 := c.valid
  rw [units]
  split
  next h =>
    have halone : ¬ (0xd800 ≤ c.toNat && c.toNat < 0xe000) = true := by
      simp only [Bool.and_eq_true, decide_eq_true_eq]
      omega
    cases us with
    | nil =>
      rw [List.append_nil]
      simp only [joinUnits, halone, Char.ofNat_toNat, Bool.false_eq_true, if_false]
    | cons u us =>
      rw [List.singleton_append, joinUnits, if_neg halone, Char.ofNat_toNat, if_neg]
      simp only [Bool.and_eq_true, decide_eq_true_eq]
      omega
  next h =>
    have hsum : 0x10000 + (0xd800 + (c.toNat - 0x10000) / 0x400 - 0xd800) * 0x400 +
        (0xdc00 + (c.toNat - 0x10000) % 0x400 - 0xdc00) = c.toNat := by
      omega
    rw [List.cons_append, List.singleton_append, joinUnits, if_pos, hsum, Char.ofNat_toNat]
    simp only [Bool.and_eq_true, decide_eq_true_eq]
    omega

theorem joinUnits_flatMap (cs : List Char) : joinUnits (cs.flatMap units) = cs := by
  induction cs with
  | nil => rfl
  | cons c cs ih => rw [List.flatMap_cons, joinUnits_units, ih]

/-- A text is read up to its closing mark. -/
theorem readText_quoted (s : String) (r : List Char) :
    readText (s.toList.flatMap escape ++ '"' :: r) = .ok (s, r) := by
  rw [readText, string?, stringUnits_quoted, Option.map_some, joinUnits_flatMap,
    String.ofList_toList]

end Strings

section Numbers

/-- What follows an integer is not taken for a part of it. -/
def Stops (r : List Char) : Prop :=
  ∀ c ∈ r.head?, isDigit c = false ∧ c ≠ '.' ∧ c ≠ 'e' ∧ c ≠ 'E'

variable {m : Nat} {ds fs ws r t : List Char}

theorem isDigit_eq (c : Char) : isDigit c = c.isDigit := by
  rw [isDigit, Char.isDigit]
  congr 1

theorem number_eq (ds : List Char) : number ds = Nat.ofDigitChars 10 ds 0 := by
  rw [number, Nat.ofDigitChars]
  congr 1
  funext n c
  rw [Nat.mul_comm]
  rfl

theorem isDigit_toDigits : ∀ c ∈ Nat.toDigits 10 m, isDigit c = true := by
  intro c hc
  rw [isDigit_eq]
  exact Nat.isDigit_of_mem_toDigits (by decide) (by decide) hc

/-- Only zero begins with a zero. -/
theorem head?_toDigits (hm : 0 < m) : (Nat.toDigits 10 m).head? ≠ some '0' := by
  have hone : ∀ d < 10, 0 < d → d.digitChar ≠ '0' := by decide
  induction m using Nat.strongRecOn with
  | ind m ih =>
    by_cases hlt : m < 10
    · rw [Nat.toDigits_of_lt_base hlt]
      exact fun h => hone m hlt hm (Option.some.inj h)
    · have hrest := ih (m / 10) (by omega) (by omega)
      obtain ⟨d, ds, hds⟩ := List.exists_cons_of_ne_nil
        (Nat.toDigits_ne_nil : Nat.toDigits 10 (m / 10) ≠ [])
      rw [Nat.toDigits_of_base_le (by decide) (by omega), hds]
      rw [hds] at hrest
      exact hrest

theorem Stops.fraction? (hr : Stops r) : fraction? r = none := by
  cases r with
  | nil => rfl
  | cons c cs =>
    rw [Json.fraction?]
    exact fun _ h => absurd (List.cons.inj h).1 (hr c rfl).2.1

theorem Stops.exponent? (hr : Stops r) : exponent? r = none := by
  cases r with
  | nil => rfl
  | cons c cs =>
    have hmark : ¬ ((c = 'e' || c = 'E') = true) := by simpa using (hr c rfl).2.2
    unfold Json.exponent?
    exact if_neg hmark

theorem foldl_number (n : Nat) (ds : List Char) :
    ds.foldl (fun n c => n * 10 + (c.toNat - 48)) n = n * 10 ^ ds.length + number ds := by
  induction ds generalizing n with
  | nil => simp [number]
  | cons d ds ih =>
    rw [number, List.foldl_cons, List.foldl_cons, ih, ih (0 * 10 + (d.toNat - 48)), List.length_cons]
    ring

theorem number_append (ds fs : List Char) :
    number (ds ++ fs) = number ds * 10 ^ fs.length + number fs := by
  rw [number, List.foldl_append, foldl_number]
  rfl

theorem number_zeros (k : Nat) : number (List.replicate k '0') = 0 := by
  induction k with
  | zero => rfl
  | succ k ih =>
    rw [List.replicate_succ', number_append, ih]
    rfl

theorem number_toDigits (n : Nat) : number (Nat.toDigits 10 n) = n := by
  rw [number_eq, Nat.ofDigitChars_ten_toDigits]

/-- What can stand before the point. -/
structure IsWhole (ws : List Char) : Prop where
  digits : ∀ c ∈ ws, isDigit c = true
  nonempty : ws ≠ []
  head : ws = ['0'] ∨ ws.head? ≠ some '0'

theorem digits_zero : ∀ c ∈ ['0'], isDigit c = true :=
  List.forall_mem_singleton.2 (by decide)

theorem isWhole_zero : IsWhole ['0'] := ⟨digits_zero, List.cons_ne_nil _ _, .inl rfl⟩

/-- No digit follows. -/
def Ends (t : List Char) : Prop := ∀ c ∈ t.head?, isDigit c = false

theorem Stops.ends (hr : Stops r) : Ends r := fun c hc => (hr c hc).1

theorem takeWhile_digits (hds : ∀ c ∈ ds, isDigit c = true) (ht : Ends t) :
    (ds ++ t).takeWhile isDigit = ds ∧ (ds ++ t).dropWhile isDigit = t := by
  rw [List.takeWhile_append_of_pos hds, List.dropWhile_append_of_pos hds]
  cases t with
  | nil => simp
  | cons c cs => simp [ht c rfl]

theorem fraction?_digits (hfs : ∀ c ∈ fs, isDigit c = true) (hne : fs ≠ []) (ht : Ends t) :
    fraction? ('.' :: (fs ++ t)) = some (fs, t) := by
  obtain ⟨htake, hdrop⟩ := takeWhile_digits hfs ht
  rw [fraction?, htake, hdrop, if_neg (by simpa using hne)]

/-- A number is taken apart at its point and its exponent. What begins with a zero has no other digit
before the point. -/
theorem readNumber_parts (negative : Bool) (hws : IsWhole ws) (ht : ws = ['0'] ∨ Ends t) :
    readNumber negative (ws ++ t) = match fraction? t with
      | some (fs, r) => match exponent? r with
        | some (e, r) =>
          .ok (real (.ofDecimal negative (number (ws ++ fs)) (e - fs.length)), r)
        | none => .ok (real (.ofDecimal negative (number (ws ++ fs)) (0 - fs.length)), r)
      | none => match exponent? t with
        | some (e, r) => .ok (real (.ofDecimal negative (number ws) e), r)
        | none => readInteger negative ws t := by
  unfold readNumber
  split
  case' h_1 cs heq =>
    obtain rfl : ws = ['0'] := by
      refine hws.head.resolve_right fun hhead => hhead ?_
      rw [← List.head?_append_of_ne_nil _ hws.nonempty, heq]
      rfl
    simp only [List.isEmpty_cons, List.length_singleton, List.cons_append, List.nil_append,
      List.drop_succ_cons, List.drop_zero, Bool.false_eq_true, if_false]
  case' h_2 hother =>
    replace ht := ht.resolve_left fun hzero => hother t (by rw [hzero]; rfl)
    simp only [(takeWhile_digits hws.digits ht).1, List.isEmpty_iff, hws.nonempty, if_false,
      List.drop_left]
  all_goals
    cases fraction? t with
    | none => cases exponent? t <;> simp
    | some p => dsimp only; cases exponent? p.2 <;> rfl

theorem isWhole_toDigits (m : Nat) : IsWhole (Nat.toDigits 10 m) := by
  refine ⟨isDigit_toDigits, Nat.toDigits_ne_nil, ?_⟩
  rcases Nat.eq_zero_or_pos m with rfl | hm
  · exact .inl rfl
  · exact .inr (head?_toDigits hm)

/-- The digits of a number are read to their end, unless there are too many. -/
theorem readNumber_toDigits (negative : Bool) (hm : m < 10 ^ longest) (hr : Stops r) :
    readNumber negative (Nat.toDigits 10 m ++ r) =
      .ok (int (if negative then -(m : Int) else m), r) := by
  have hlength : ¬ longest < (Nat.toDigits 10 m).length := by
    rw [Nat.not_lt, Nat.length_toDigits_le_iff (by decide) (by decide)]
    exact hm
  rw [readNumber_parts negative (isWhole_toDigits m) (.inr hr.ends), hr.fraction?]
  dsimp only
  rw [hr.exponent?]
  dsimp only
  rw [readInteger, if_neg hlength, number_toDigits]

theorem toList_toString_nat (n : Nat) : (toString n).toList = Nat.toDigits 10 n := by
  rw [Nat.toString_eq_repr, Nat.toList_repr]

theorem toList_toString (n : Int) : (toString n).toList =
    if 0 ≤ n then Nat.toDigits 10 n.natAbs else '-' :: Nat.toDigits 10 n.natAbs := by
  rw [Int.toString_eq_repr, Int.repr_eq_if]
  split
  · rw [Nat.toList_repr, show n.toNat = n.natAbs by omega]
  · rw [String.toList_append, Nat.toList_repr, show (-n).toNat = n.natAbs by omega]
    rfl

theorem exists_toString (n : Int) :
    ∃ c cs, (toString n).toList = c :: cs ∧ (c = '-' ∨ isDigit c = true) := by
  rw [toList_toString]
  split
  · obtain ⟨d, ds, hds⟩ := List.exists_cons_of_ne_nil
      (Nat.toDigits_ne_nil : Nat.toDigits 10 n.natAbs ≠ [])
    exact ⟨d, ds, hds, .inr (isDigit_toDigits d (by rw [hds]; exact List.mem_cons_self))⟩
  · exact ⟨_, _, rfl, .inl rfl⟩

theorem ne_of_isDigit {c d : Char} (hd : isDigit d = true) (hc : isDigit c = false) : d ≠ c := by
  rintro rfl
  rw [hd] at hc
  exact Bool.noConfusion hc

/-- Every mark that could begin another value is no digit. -/
theorem readScalar_digit {d : Char} (hd : isDigit d = true) (cs : List Char) :
    readScalar (d :: cs) = readNumber false (d :: cs) ∧
      readScalar ('-' :: d :: cs) = readNumber true (d :: cs) := by
  have hne : ∀ c, isDigit c = false → d ≠ c := fun c => ne_of_isDigit hd
  constructor
  · unfold readScalar
    split
    all_goals first
      | rfl
      | next h => exact absurd (List.cons.inj h).1 (hne _ (by decide))
  · unfold readScalar
    split
    all_goals first
      | next h => exact absurd (List.cons.inj h).1 (by decide)
      | next h => exact absurd (List.cons.inj (List.cons.inj h).2).1 (hne _ (by decide))
      | next h => rw [(List.cons.inj h).2]
      | next h => exact absurd rfl (h _)

theorem readScalar_int {n : Int} (hn : n.natAbs < 10 ^ longest) (hr : Stops r) :
    readScalar ((toString n).toList ++ r) = .ok (int n, r) := by
  obtain ⟨d, ds, hds⟩ := List.exists_cons_of_ne_nil
    (Nat.toDigits_ne_nil : Nat.toDigits 10 n.natAbs ≠ [])
  have hd : isDigit d = true := isDigit_toDigits d (by rw [hds]; exact List.mem_cons_self)
  have hread := fun negative => readNumber_toDigits negative hn hr
  rw [hds, List.cons_append] at hread
  rw [toList_toString, hds]
  split
  · rw [List.cons_append, (readScalar_digit hd _).1, hread, if_neg (by decide),
      show (n.natAbs : Int) = n by omega]
  · rw [List.cons_append, List.cons_append, (readScalar_digit hd _).2, hread, if_pos rfl,
      show -(n.natAbs : Int) = n by omega]

end Numbers

end Hotpatch.Json
