import Mathlib.Data.List.DropRight
import Hotpatch.Proofs.Binary64.Decimal
import Hotpatch.Proofs.Json.Scalars

/-! Numbers with a fraction in JSON: each one that was read is read again from what is written for it. However
its digits are laid out, the text stands for the decimal that was chosen because it reads back. -/

namespace Hotpatch

namespace Json

variable {r : List Char}

section Exponents

/-- An exponent is a sign and digits. -/
theorem exponentText_eq (e : Int) : ∃ es, (Binary64.exponentText e).toList =
    (if e < 0 then '-' else '+') :: es ∧ (∀ c ∈ es, isDigit c = true) ∧ es ≠ [] ∧
      number es = e.natAbs := by
  have hsign : (if e < 0 then "-" else "+").toList = [if e < 0 then '-' else '+'] := by
    split <;> rfl
  rw [Binary64.exponentText, String.toList_append, hsign]
  by_cases hshort : (toString e.natAbs).length < 2
  · rw [if_pos hshort]
    refine ⟨'0' :: Nat.toDigits 10 e.natAbs, ?_, ?_, List.cons_ne_nil _ _, ?_⟩
    · rw [String.toList_append, toList_toString_nat]
      rfl
    · exact List.forall_mem_cons.2 ⟨by decide, isDigit_toDigits⟩
    · have hzero := number_append ['0'] (Nat.toDigits 10 e.natAbs)
      rw [number_toDigits] at hzero
      rw [← List.singleton_append, hzero]
      simp [number]
  · rw [if_neg hshort]
    refine ⟨Nat.toDigits 10 e.natAbs, ?_, isDigit_toDigits, Nat.toDigits_ne_nil, number_toDigits _⟩
    rw [toList_toString_nat]
    rfl

/-- What is written behind the mark is the exponent that is read. -/
theorem exponent?_text (e : Int) (hr : Ends r) :
    exponent? ('e' :: ((Binary64.exponentText e).toList ++ r)) = some (e, r) := by
  obtain ⟨es, htext, hes, hne, hnumber⟩ := exponentText_eq e
  obtain ⟨htake, hdrop⟩ := takeWhile_digits hes hr
  rw [htext]
  split
  next hneg =>
    simp [exponent?, htake, hdrop, hne, hnumber, abs_of_neg hneg]
  next hpos =>
    simp [exponent?, htake, hdrop, hne, hnumber, abs_of_nonneg (not_lt.1 hpos)]

end Exponents

end Json

namespace Binary64

open Json

namespace Digits

/-- What digits with their point stand for. -/
def value (d : Digits) : ℚ := number d.digits * 10 ^ (d.point - d.digits.length)

/-- Digits that don't begin with a zero. -/
structure IsProper (d : Digits) : Prop where
  digits : ∀ c ∈ d.digits, isDigit c = true
  nonempty : d.digits ≠ []
  head : d.digits.head? ≠ some '0'

variable {d : Digits} {n : Nat} {ws fs : List Char}

theorem rdropWhile_zeros (ds : List Char) :
    ∃ k, ds = ds.rdropWhile (· = '0') ++ List.replicate k '0' := by
  have hzeros : ∀ c ∈ ds.rtakeWhile (· = '0'), c = '0' := fun c hc => by
    simpa using List.mem_rtakeWhile_imp hc
  refine ⟨(ds.rtakeWhile (· = '0')).length, ?_⟩
  rw [← List.eq_replicate_length.2 hzeros, List.rdropWhile_append_rtakeWhile]

/-- The zeros at the end of digits tell their place only. -/
theorem of_eq (hn : 0 < n) (place : Int) :
    (of n place).IsProper ∧ (of n place).value = n * 10 ^ (-place) := by
  let ds := Nat.toDigits 10 n
  let kept := ds.rdropWhile (· = '0')
  have hof : of n place = ⟨kept, ds.length - place⟩ := by
    rw [of, toList_toString_nat]
    rfl
  obtain ⟨k, hsplit⟩ : ∃ k, ds = kept ++ List.replicate k '0' := rdropWhile_zeros ds
  have hhead : ds.head? ≠ some '0' := head?_toDigits hn
  have hne : kept ≠ [] := by
    intro hnil
    rw [hnil, List.nil_append] at hsplit
    rw [hsplit] at hhead
    cases k with
    | zero => exact Nat.toDigits_ne_nil hsplit
    | succ k => exact hhead rfl
  have hlength : ds.length = kept.length + k := by
    rw [hsplit, List.length_append, List.length_replicate]
  have hcast : (n : ℚ) = number kept * 10 ^ k := by
    have hvalue := number_toDigits n
    rw [show Nat.toDigits 10 n = kept ++ List.replicate k '0' from hsplit, number_append, number_zeros,
      List.length_replicate, Nat.add_zero] at hvalue
    exact_mod_cast hvalue.symm
  rw [hof]
  refine ⟨⟨fun c hc => isDigit_toDigits c ((List.rdropWhile_prefix _ _).subset hc), hne, ?_⟩, ?_⟩
  · rw [hsplit, List.head?_append_of_ne_nil _ hne] at hhead
    exact hhead
  · rw [value]
    dsimp only
    rw [hlength, hcast, mul_assoc, ← zpow_natCast, ← zpow_add₀ (by norm_num)]
    congr 2
    omega

/-- What is read of a text: a decimal, if nothing follows that could belong to it. -/
def Gives (text : List Char) (x : ℚ) : Prop :=
  (∃ c cs, text = c :: cs ∧ isDigit c = true) ∧ ∀ negative r, Stops r → ∃ (n : Nat) (k : Int),
    (n : ℚ) * 10 ^ k = x ∧
      readNumber negative (text ++ r) = .ok (real (.ofDecimal negative n k), r)

theorem first_of_whole (hws : IsWhole ws) (t : List Char) :
    ∃ c cs, ws ++ t = c :: cs ∧ isDigit c = true := by
  obtain ⟨c, cs, rfl⟩ := List.exists_cons_of_ne_nil hws.nonempty
  exact ⟨c, cs ++ t, rfl, hws.digits c List.mem_cons_self⟩

theorem ends_point (t : List Char) : Ends ('.' :: t) := by
  rintro c ⟨⟩
  decide

theorem ends_mark (t : List Char) : Ends ('e' :: t) := by
  rintro c ⟨⟩
  decide

theorem gives_point (hws : IsWhole ws) (hfs : ∀ c ∈ fs, isDigit c = true) (hne : fs ≠ []) :
    Gives (ws ++ '.' :: fs) (number (ws ++ fs) * 10 ^ (-(fs.length : Int))) := by
  refine ⟨first_of_whole hws _, fun negative r hr => ⟨number (ws ++ fs), 0 - fs.length, ?_, ?_⟩⟩
  · rw [zero_sub]
  · rw [List.append_assoc, List.cons_append, readNumber_parts negative hws (.inr (ends_point _)),
      fraction?_digits hfs hne hr.ends]
    dsimp only
    rw [hr.exponent?]

theorem gives_mark (hws : IsWhole ws) (e : Int) :
    Gives (ws ++ 'e' :: (exponentText e).toList) (number ws * 10 ^ e) := by
  refine ⟨first_of_whole hws _, fun negative r hr => ⟨number ws, e, rfl, ?_⟩⟩
  rw [List.append_assoc, List.cons_append, readNumber_parts negative hws (.inr (ends_mark _)),
    exponent?_text e hr.ends]
  rfl

theorem gives_point_mark (hws : IsWhole ws) (hfs : ∀ c ∈ fs, isDigit c = true) (hne : fs ≠ [])
    (e : Int) : Gives (ws ++ '.' :: (fs ++ 'e' :: (exponentText e).toList))
      (number (ws ++ fs) * 10 ^ (e - fs.length)) := by
  refine ⟨first_of_whole hws _, fun negative r hr => ⟨number (ws ++ fs), e - fs.length, rfl, ?_⟩⟩
  rw [List.append_assoc, List.cons_append, List.append_assoc, List.cons_append,
    readNumber_parts negative hws (.inr (ends_point _)), fraction?_digits hfs hne (ends_mark _)]
  dsimp only
  rw [exponent?_text e hr.ends]

/-- A point far off is written as an exponent. -/
theorem IsProper.gives_exponent (hd : d.IsProper) : Gives (d.digits.take 1 ++
    (if d.digits.length ≤ 1 then [] else '.' :: d.digits.drop 1) ++
      'e' :: (exponentText (d.point - 1)).toList) d.value := by
  obtain ⟨c, cs, hcs⟩ := List.exists_cons_of_ne_nil hd.nonempty
  have hwhole : IsWhole [c] := by
    refine ⟨fun x hx => hd.digits x ?_, List.cons_ne_nil _ _, .inr fun h => hd.head ?_⟩
    · rw [hcs, List.mem_singleton.1 hx]
      exact List.mem_cons_self
    · rw [hcs]
      exact h
  cases cs with
  | nil =>
    have hvalue : d.value = number [c] * 10 ^ (d.point - 1) := by
      rw [value, hcs]
      rfl
    rw [hvalue]
    simpa [hcs] using gives_mark hwhole (d.point - 1)
  | cons c' cs' =>
    have hrest : ∀ x ∈ c' :: cs', isDigit x = true := fun x hx =>
      hd.digits x (by rw [hcs]; exact List.mem_cons_of_mem c hx)
    have hvalue : d.value = number ([c] ++ c' :: cs') *
        10 ^ (d.point - 1 - ((c' :: cs').length : Int)) := by
      rw [value, hcs]
      congr 2
      simp only [List.length_cons]
      push_cast
      omega
    rw [hvalue]
    simpa [hcs] using gives_point_mark hwhole hrest (List.cons_ne_nil _ _) (d.point - 1)

/-- A number below one is written with the zeros before its first digit. -/
theorem IsProper.gives_below (hd : d.IsProper) (hp : d.point ≤ 0) :
    Gives (['0'] ++ '.' :: (List.replicate (-d.point).toNat '0' ++ d.digits)) d.value := by
  let fs := List.replicate (-d.point).toNat '0' ++ d.digits
  have hfs : ∀ c ∈ fs, isDigit c = true := by
    intro c hc
    rcases List.mem_append.1 hc with hc | hc
    · rw [List.eq_of_mem_replicate hc]
      decide
    · exact hd.digits c hc
  have hnumber : number (['0'] ++ fs) = number d.digits := by
    rw [number_append, number_append, number_zeros]
    simp [number]
  have hvalue : number (['0'] ++ fs) * 10 ^ (-(fs.length : Int)) = d.value := by
    rw [hnumber, value]
    congr 2
    rw [List.length_append, List.length_replicate]
    omega
  rw [← hvalue]
  exact gives_point isWhole_zero hfs (by simp [hd.nonempty])

/-- Any other number has its point inside of its digits, or behind zeros that fill them up. -/
theorem IsProper.gives_above (hd : d.IsProper) (hp : 0 < d.point) :
    Gives (d.digits.take d.point.toNat ++ List.replicate (d.point.toNat - d.digits.length) '0' ++
      '.' :: if d.digits.length ≤ d.point.toNat then ['0'] else d.digits.drop d.point.toNat)
      d.value := by
  obtain ⟨k, hk⟩ := Int.eq_ofNat_of_zero_le hp.le
  have hpoint : d.point.toNat = k := by omega
  rw [hpoint]
  by_cases hlength : d.digits.length ≤ k
  · have hwhole : IsWhole (d.digits ++ List.replicate (k - d.digits.length) '0') := by
      refine ⟨fun c hc => ?_, by simp [hd.nonempty], .inr ?_⟩
      · rcases List.mem_append.1 hc with hc | hc
        · exact hd.digits c hc
        · rw [List.eq_of_mem_replicate hc]
          decide
      · rw [List.head?_append_of_ne_nil _ hd.nonempty]
        exact hd.head
    have hvalue : number (d.digits ++ List.replicate (k - d.digits.length) '0' ++ ['0']) *
        10 ^ (-((['0'] : List Char).length : Int)) = d.value := by
      have hzero : number ['0'] = 0 := rfl
      rw [number_append, number_append, number_zeros, hzero, value, hk, List.length_replicate]
      push_cast
      rw [add_zero, add_zero, mul_assoc, mul_assoc, ← zpow_natCast, ← zpow_natCast,
        ← zpow_add₀ (by norm_num), ← zpow_add₀ (by norm_num)]
      congr 2
      simp
      omega
    rw [if_pos hlength, List.take_of_length_le hlength, ← hvalue]
    exact gives_point hwhole digits_zero (List.cons_ne_nil _ _)
  · have hfill : k - d.digits.length = 0 := by omega
    have hwhole : IsWhole (d.digits.take k) := by
      have hne : d.digits.take k ≠ [] := by
        rw [← List.length_pos_iff, List.length_take]
        omega
      refine ⟨fun c hc => hd.digits c (List.mem_of_mem_take hc), hne, .inr fun hhead => hd.head ?_⟩
      rw [← hhead, List.head?_take]
      simp
      omega
    have hvalue : number (d.digits.take k ++ d.digits.drop k) *
        10 ^ (-((d.digits.drop k).length : Int)) = d.value := by
      rw [List.take_append_drop, value, List.length_drop, hk]
      congr 2
      omega
    rw [if_neg hlength, hfill, List.replicate_zero, List.append_nil, ← hvalue]
    exact gives_point hwhole (fun c hc => hd.digits c (List.mem_of_mem_drop hc)) (by simp; omega)

/-- However digits are laid out, what they stand for is read. -/
theorem IsProper.gives (hd : d.IsProper) : Gives d.text.toList d.value := by
  rw [text]
  dsimp only
  split
  next =>
    have hrest : (if d.digits.length ≤ 1 then "" else "." ++ String.ofList d.digits.tail).toList =
        if d.digits.length ≤ 1 then [] else '.' :: d.digits.tail := by
      split
      · rfl
      · simp
    simpa [hrest] using hd.gives_exponent
  next =>
    split
    next hp => simpa using hd.gives_below hp
    next hp =>
      have hrest : (if d.digits.length ≤ d.point.toNat then "0"
          else String.ofList (d.digits.drop d.point.toNat)).toList =
          if d.digits.length ≤ d.point.toNat then ['0'] else d.digits.drop d.point.toNat := by
        split
        · rfl
        · simp
      simpa [hrest] using hd.gives_above (not_le.1 hp)

theorem not_mem_of_digits {cs : List Char} (hcs : ∀ c ∈ cs, isDigit c = true) : '\r' ∉ cs :=
  fun h => absurd (hcs _ h) (by decide)

/-- There is no line end in a number. -/
theorem IsProper.feeds (hd : d.IsProper) : '\r' ∉ d.text.toList := by
  have hdigits := not_mem_of_digits hd.digits
  have htake : ∀ k, '\r' ∉ d.digits.take k := fun k hk => hdigits (List.mem_of_mem_take hk)
  have hdrop : ∀ k, '\r' ∉ d.digits.drop k := fun k hk => hdigits (List.mem_of_mem_drop hk)
  have hexponent : ∀ e, '\r' ∉ (exponentText e).toList := by
    intro e
    obtain ⟨es, hes, hdigits, -⟩ := exponentText_eq e
    rw [hes, List.mem_cons, not_or]
    exact ⟨by split <;> decide, not_mem_of_digits hdigits⟩
  rw [text]
  dsimp only
  split
  · split
    · simp [htake, hexponent]
    · have htail := hdrop 1
      rw [List.drop_one] at htail
      simp [htake, htail, hexponent]
  · split
    · simp [hdigits]
    · split
      · simp [htake]
      · simp [htake, hdrop]

end Digits

/-- The text of a number gives this number back. -/
theorem positiveText_gives {m : Nat} {e : Int} (hn : IsNormal m e) (hm : 0 < m) :
    (∃ c cs, (positiveText m e).toList = c :: cs ∧ isDigit c = true) ∧
      '\r' ∉ (positiveText m e).toList ∧ ∀ negative r, Stops r →
        readNumber negative ((positiveText m e).toList ++ r) = .ok (real (.finite negative m e), r) := by
  obtain ⟨n, place, hshortest, hrounds⟩ := exists_shortest hn hm
  have hpos : 0 < n := by
    have hrange := (hrounds.range hn hm).1
    rcases Nat.eq_zero_or_pos n with rfl | hpos
    · rw [Nat.cast_zero, zero_mul] at hrange
      exact absurd hrange (not_lt.2 (by positivity))
    · exact hpos
  obtain ⟨hproper, hvalue⟩ := Digits.of_eq hpos place
  obtain ⟨hfirst, hgives⟩ := hproper.gives
  rw [positiveText, hshortest]
  refine ⟨hfirst, hproper.feeds, fun negative r hr => ?_⟩
  obtain ⟨n', k, hnk, hread⟩ := hgives negative r hr
  rw [hvalue] at hnk
  rw [hread, ofDecimal_of_rounds negative hn hm (hnk ▸ hrounds)]

end Binary64

namespace Json

variable {x : Binary64} {r : List Char}

theorem atom_finite (negative : Bool) {m : Nat} (hm : 0 < m) (e : Int) :
    atom (real (.finite negative m e)) =
      (if negative then ['-'] else []) ++ (Binary64.positiveText m e).toList := by
  have hshown : atom (real (.finite negative m e)) =
      (Binary64.shown (.finite negative m e)).toList := rfl
  rw [hshown, Binary64.shown, if_neg (Nat.ne_of_gt hm), String.toList_append]
  cases negative <;> rfl

/-- A number that was read once is read again from its text. -/
theorem readScalar_real (hx : x.IsKept) (hr : Stops r) :
    readScalar (atom (real x) ++ r) = .ok (real x, r) := by
  cases hx with
  | notNumber => rfl
  | infinite negative => cases negative <;> rfl
  | zero negative =>
    have hzero : readNumber negative (['0'] ++ '.' :: (['0'] ++ r)) =
        .ok (real (.zero negative), r) := by
      rw [readNumber_parts negative isWhole_zero (.inl rfl),
        fraction?_digits digits_zero (List.cons_ne_nil _ _) hr.ends]
      dsimp only
      rw [hr.exponent?]
      cases negative <;> rfl
    obtain ⟨hpositive, hnegative⟩ := readScalar_digit (by decide : isDigit '0' = true) ('.' :: '0' :: r)
    cases negative
    · exact hpositive.trans hzero
    · exact hnegative.trans hzero
  | @finite negative m e hn hm =>
    obtain ⟨⟨c, cs, hcs, hc⟩, -, hread⟩ := Binary64.positiveText_gives hn hm
    have hagain := hread negative r hr
    rw [hcs, List.cons_append] at hagain
    obtain ⟨hpositive, hnegative⟩ := readScalar_digit hc (cs ++ r)
    rw [atom_finite negative hm, hcs]
    cases negative
    · exact hpositive.trans hagain
    · exact hnegative.trans hagain

/-- Such a number begins with a sign, a digit or a letter, and there is no line end in it. -/
theorem atom_real (hx : x.IsKept) : (∃ c cs, atom (real x) = c :: cs ∧
    (c = '-' ∨ c = 'N' ∨ c = 'I' ∨ isDigit c = true)) ∧ '\r' ∉ atom (real x) := by
  cases hx with
  | notNumber => exact ⟨⟨_, _, rfl, .inr (.inl rfl)⟩, by decide⟩
  | infinite negative =>
    cases negative
    · exact ⟨⟨_, _, rfl, .inr (.inr (.inl rfl))⟩, by decide⟩
    · exact ⟨⟨_, _, rfl, .inl rfl⟩, by decide⟩
  | zero negative =>
    cases negative
    · exact ⟨⟨_, _, rfl, .inr (.inr (.inr (by decide)))⟩, by decide⟩
    · exact ⟨⟨_, _, rfl, .inl rfl⟩, by decide⟩
  | @finite negative m e hn hm =>
    obtain ⟨⟨c, cs, hcs, hc⟩, hfeeds, -⟩ := Binary64.positiveText_gives hn hm
    rw [atom_finite negative hm]
    cases negative
    · exact ⟨⟨c, cs, hcs, .inr (.inr (.inr hc))⟩, hfeeds⟩
    · exact ⟨⟨_, _, rfl, .inl rfl⟩, by simpa using hfeeds⟩

end Json

end Hotpatch
