import Mathlib.Algebra.Order.Field.Power
import Mathlib.Tactic.FieldSimp
import Mathlib.Tactic.Linarith
import Mathlib.Tactic.NormNum
import Mathlib.Tactic.Positivity
import Mathlib.Tactic.Ring
import Hotpatch.Binary64

/-! Ratios are rounded by what they stand for alone, however they are written. The place of the last bit is
the only one at which the significand has no more than 53 bits, and no fewer above the least place; what
is within half a place of a number, or a quarter below the least full significand, is rounded to it. -/

namespace Hotpatch.Binary64

variable {r : Ratio} {m n : Nat} {e : Int} {x : ℚ}

namespace Ratio

/-- What a ratio stands for. -/
def value (r : Ratio) : ℚ := r.1 / r.2

theorem timesTwo_den (hr : 0 < r.2) (e : Int) : 0 < (r.timesTwo e).2 := by
  unfold timesTwo
  split
  · exact hr
  · rw [Nat.shiftLeft_eq]
    positivity

theorem timesTen_den (hr : 0 < r.2) (e : Int) : 0 < (r.timesTen e).2 := by
  unfold timesTen
  split
  · exact hr
  · exact Nat.mul_pos hr (Nat.pow_pos (by decide))

/-- A power with a negative exponent goes to the denominator. -/
theorem value_scaled (r : Ratio) (b : Nat) (e : Int) :
    value (if 0 ≤ e then (r.1 * b ^ e.toNat, r.2) else (r.1, r.2 * b ^ (-e).toNat)) =
      r.value * b ^ e := by
  unfold value
  split
  next he =>
    obtain ⟨k, rfl⟩ := Int.eq_ofNat_of_zero_le he
    simp only [Int.toNat_natCast, zpow_natCast]
    push_cast
    ring
  next he =>
    obtain ⟨k, hk⟩ := Int.eq_ofNat_of_zero_le (by omega : 0 ≤ -e)
    obtain rfl : e = -(k : Int) := by omega
    simp only [neg_neg, Int.toNat_natCast, zpow_neg, zpow_natCast]
    push_cast
    rw [div_mul_eq_div_div, div_eq_mul_inv]

theorem value_timesTwo (r : Ratio) (e : Int) : (r.timesTwo e).value = r.value * 2 ^ e := by
  rw [timesTwo, Nat.shiftLeft_eq, Nat.shiftLeft_eq]
  exact r.value_scaled 2 e

theorem value_timesTen (r : Ratio) (e : Int) : (r.timesTen e).value = r.value * 10 ^ e :=
  r.value_scaled 10 e

theorem mul_le_iff (hr : 0 < r.2) : n * r.2 ≤ r.1 ↔ (n : ℚ) ≤ r.value := by
  rw [value, le_div_iff₀ (by exact_mod_cast hr)]
  exact_mod_cast Iff.rfl

theorem le_mul_iff (hr : 0 < r.2) : r.1 ≤ n * r.2 ↔ r.value ≤ n := by
  rw [value, div_le_iff₀ (by exact_mod_cast hr)]
  exact_mod_cast Iff.rfl

theorem floor_lt (hr : 0 < r.2) : r.floor < n ↔ r.value < n := by
  rw [floor, Nat.div_lt_iff_lt_mul hr, ← not_le, mul_le_iff hr, not_le]

theorem le_floor (hr : 0 < r.2) : n ≤ r.floor ↔ (n : ℚ) ≤ r.value := by
  rw [← not_lt, floor_lt hr, not_lt]

theorem neighbours_fst (r : Ratio) : r.neighbours.1 = r.floor ∨ r.neighbours.1 = r.floor + 1 := by
  unfold neighbours
  dsimp only
  split
  · exact .inr rfl
  · exact .inl rfl

/-- The nearer neighbour is at most half a place away. -/
theorem neighbours_near (hr : 0 < r.2) :
    r.value ≤ r.neighbours.1 + 1 / 2 ∧ (r.neighbours.1 : ℚ) ≤ r.value + 1 / 2 := by
  have hden : (0 : ℚ) < r.2 := by exact_mod_cast hr
  have hsum : (r.1 : ℚ) = r.2 * r.floor + (r.1 % r.2 : Nat) := by
    exact_mod_cast (Nat.div_add_mod r.1 r.2).symm
  have hrest : ((r.1 % r.2 : Nat) : ℚ) < r.2 := by exact_mod_cast Nat.mod_lt r.1 hr
  have hpos : (0 : ℚ) ≤ (r.1 % r.2 : Nat) := Nat.cast_nonneg _
  have hvalue : r.value = r.floor + (r.1 % r.2 : Nat) / r.2 := by
    rw [value, hsum]
    field_simp
  unfold neighbours
  dsimp only
  split
  next hup =>
    have hhalf : (r.2 : ℚ) ≤ 2 * (r.1 % r.2 : Nat) := by
      simp only [Bool.or_eq_true, Bool.and_eq_true, decide_eq_true_eq] at hup
      exact_mod_cast (by omega : r.2 ≤ 2 * (r.1 % r.2))
    have hlow : (1 : ℚ) / 2 ≤ (r.1 % r.2 : Nat) / r.2 := by
      rw [div_le_div_iff₀ two_pos hden]
      linarith
    have hhigh : ((r.1 % r.2 : Nat) : ℚ) / r.2 ≤ 1 := (div_le_one hden).2 hrest.le
    rw [hvalue]
    push_cast
    constructor <;> linarith
  next hdown =>
    have hhalf : 2 * ((r.1 % r.2 : Nat) : ℚ) ≤ r.2 := by
      simp only [Bool.or_eq_true, Bool.and_eq_true, decide_eq_true_eq, not_or] at hdown
      exact_mod_cast (by omega : 2 * (r.1 % r.2) ≤ r.2)
    have hhigh : ((r.1 % r.2 : Nat) : ℚ) / r.2 ≤ 1 / 2 := by
      rw [div_le_div_iff₀ hden two_pos]
      linarith
    have hlow : (0 : ℚ) ≤ (r.1 % r.2 : Nat) / r.2 := div_nonneg hpos hden.le
    rw [hvalue]
    constructor <;> linarith

/-- A ratio at most half a place from an integer has this one as its nearer neighbour; an odd one only if
it is closer. -/
theorem neighbours_eq (hr : 0 < r.2) (hlow : (n : ℚ) - 1 / 2 ≤ r.value)
    (hhigh : r.value ≤ n + 1 / 2)
    (hodd : n % 2 = 1 → (n : ℚ) - 1 / 2 < r.value ∧ r.value < n + 1 / 2) :
    r.neighbours.1 = n := by
  have hden : (0 : ℚ) < r.2 := by exact_mod_cast hr
  have hsum := Nat.div_add_mod r.1 r.2
  have hrest := Nat.mod_lt r.1 hr
  have scaled : (2 * n * r.2 ≤ 2 * r.1 + r.2 ∧ 2 * r.1 ≤ 2 * n * r.2 + r.2) ∧
      (n % 2 = 1 → 2 * n * r.2 < 2 * r.1 + r.2 ∧ 2 * r.1 < 2 * n * r.2 + r.2) := by
    rw [value, le_div_iff₀ hden] at hlow
    rw [value, div_le_iff₀ hden] at hhigh
    rw [value, lt_div_iff₀ hden, div_lt_iff₀ hden] at hodd
    refine ⟨⟨?_, ?_⟩, fun hn => ⟨?_, ?_⟩⟩
    · exact_mod_cast (by linarith : (2 * n * r.2 : ℚ) ≤ 2 * r.1 + r.2)
    · exact_mod_cast (by linarith : (2 * r.1 : ℚ) ≤ 2 * n * r.2 + r.2)
    · exact_mod_cast (by linarith [(hodd hn).1] : (2 * n * r.2 : ℚ) < 2 * r.1 + r.2)
    · exact_mod_cast (by linarith [(hodd hn).2] : (2 * r.1 : ℚ) < 2 * n * r.2 + r.2)
  obtain ⟨⟨hl, hh⟩, ho⟩ := scaled
  have hfloor : r.floor = r.1 / r.2 := rfl
  unfold neighbours
  simp only [hfloor]
  generalize r.1 / r.2 = q at *
  generalize r.1 % r.2 = rest at *
  have hupper : q ≤ n := by
    by_contra hlt
    have : r.2 * (n + 1) ≤ r.2 * q := Nat.mul_le_mul_left _ (by omega)
    nlinarith
  have hlower : n ≤ q + 1 := by
    by_contra hlt
    have : r.2 * (q + 2) ≤ r.2 * n := Nat.mul_le_mul_left _ (by omega)
    nlinarith
  obtain rfl | rfl : n = q ∨ n = q + 1 := by omega
  · rw [if_neg]
    simp only [Bool.or_eq_true, Bool.and_eq_true, decide_eq_true_eq, not_or, not_and]
    refine ⟨by nlinarith, fun heq hq => ?_⟩
    have := (ho hq).2
    nlinarith
  · rw [if_pos]
    simp only [Bool.or_eq_true, Bool.and_eq_true, decide_eq_true_eq]
    by_cases hlt : r.2 < 2 * rest
    · exact .inl hlt
    · have heq : 2 * rest = r.2 := by nlinarith
      refine .inr ⟨heq, ?_⟩
      by_contra hq
      have := (ho (by omega)).1
      nlinarith

end Ratio

section Places

/-- Where the last bit of a significand stands: with it the significand has all 53 bits, or fewer only at
the least place. -/
structure IsPlace (x : ℚ) (e : Int) : Prop where
  least : -1074 ≤ e
  upper : x * 2 ^ (-e) < 2 * leastFull
  lower : e = -1074 ∨ (leastFull : ℚ) ≤ x * 2 ^ (-e)

theorem scaled_shift (x : ℚ) (e : Int) (k : Nat) : x * 2 ^ (-e) = x * 2 ^ (-(e + k)) * 2 ^ k := by
  rw [mul_assoc, ← zpow_natCast, ← zpow_add₀ two_ne_zero]
  congr 2
  omega

/-- A higher place loses a bit at least. -/
theorem IsPlace.le {e' : Int} (h : IsPlace x e) (h' : IsPlace x e') : e' ≤ e := by
  by_contra hlt
  obtain ⟨k, hk⟩ := Int.eq_ofNat_of_zero_le (by omega : 0 ≤ e' - e - 1)
  obtain rfl : e' = e + (k + 1 : Nat) := by omega
  have hfull := h'.lower.resolve_left (by have := h.least; omega)
  have hshift := scaled_shift x e (k + 1)
  have hpow : (1 : ℚ) ≤ 2 ^ k := one_le_pow₀ one_le_two
  have hless := h.upper
  rw [hshift, pow_succ] at hless
  have hbig : (leastFull : ℚ) * (1 * 2) ≤ x * 2 ^ (-(e + (k + 1 : Nat))) * (2 ^ k * 2) := by
    gcongr
    exact le_trans (Nat.cast_nonneg _) hfull
  linarith

theorem IsPlace.eq {e' : Int} (h : IsPlace x e) (h' : IsPlace x e') : e = e' :=
  le_antisymm (h'.le h) (h.le h')

/-- The place at which a ratio is rounded. -/
def placeOf (r : Ratio) : Int :=
  let low : Int := max ((Nat.log2 r.1 : Int) - Nat.log2 r.2 - 53) (-1074)
  if (r.timesTwo (-low)).floor < 2 * leastFull then low else low + 1

theorem log2_bounds (hn : 0 < n) :
    (2 : ℚ) ^ (Nat.log2 n : Int) ≤ n ∧ (n : ℚ) < 2 ^ (Nat.log2 n + 1 : Int) := by
  rw [← Nat.cast_one, ← Nat.cast_add, zpow_natCast, zpow_natCast]
  exact ⟨by exact_mod_cast Nat.log2_self_le (Nat.ne_of_gt hn), by exact_mod_cast Nat.lt_log2_self⟩

/-- The lengths of both parts tell a ratio up to a factor of four. -/
theorem value_log2 (hn : 0 < r.1) (hd : 0 < r.2) :
    (2 : ℚ) ^ ((Nat.log2 r.1 : Int) - Nat.log2 r.2 - 1) < r.value ∧
      r.value < 2 ^ ((Nat.log2 r.1 : Int) - Nat.log2 r.2 + 1) := by
  have hden : (0 : ℚ) < r.2 := by exact_mod_cast hd
  obtain ⟨hlow, hhigh⟩ := log2_bounds hn
  obtain ⟨hlow', hhigh'⟩ := log2_bounds hd
  generalize (Nat.log2 r.1 : Int) = a at *
  generalize (Nat.log2 r.2 : Int) = b at *
  rw [Ratio.value, lt_div_iff₀ hden, div_lt_iff₀ hden]
  constructor
  · calc (2 : ℚ) ^ (a - b - 1) * r.2 < 2 ^ (a - b - 1) * 2 ^ (b + 1) := by gcongr
      _ = 2 ^ a := by rw [← zpow_add₀ two_ne_zero]; congr 1; omega
      _ ≤ r.1 := hlow
  · calc (r.1 : ℚ) < 2 ^ (a + 1) := hhigh
      _ = 2 ^ (a - b + 1) * 2 ^ b := by rw [← zpow_add₀ two_ne_zero]; congr 1; omega
      _ ≤ 2 ^ (a - b + 1) * r.2 := by gcongr

theorem cast_leastFull : (leastFull : ℚ) = 2 ^ (52 : Int) := by
  norm_num [leastFull]

theorem isPlace_placeOf (hn : 0 < r.1) (hd : 0 < r.2) : IsPlace r.value (placeOf r) := by
  obtain ⟨hlow, hhigh⟩ := value_log2 hn hd
  unfold placeOf
  generalize (Nat.log2 r.1 : Int) - Nat.log2 r.2 = d at *
  have below : ∀ e : Int, d - 53 ≤ e → r.value * 2 ^ (-e) < 2 ^ (54 : Int) := by
    intro e he
    calc r.value * 2 ^ (-e) < 2 ^ (d + 1) * 2 ^ (-e) := by gcongr
      _ = 2 ^ (d + 1 - e) := by rw [← zpow_add₀ two_ne_zero]; congr 1
      _ ≤ 2 ^ (54 : Int) := zpow_le_zpow_right₀ one_le_two (by omega)
  have above : ∀ e : Int, e ≤ d - 53 → (leastFull : ℚ) ≤ r.value * 2 ^ (-e) := by
    intro e he
    rw [cast_leastFull]
    calc (2 : ℚ) ^ (52 : Int) ≤ 2 ^ (d - 1 - e) := zpow_le_zpow_right₀ one_le_two (by omega)
      _ = 2 ^ (d - 1) * 2 ^ (-e) := by rw [← zpow_add₀ two_ne_zero]; congr 1
      _ ≤ r.value * 2 ^ (-e) := by gcongr
  have hden : ∀ e, 0 < (r.timesTwo e).2 := r.timesTwo_den hd
  dsimp only
  split
  next hfloor =>
    rw [Ratio.floor_lt (hden _), Ratio.value_timesTwo] at hfloor
    refine ⟨le_max_right _ _, by exact_mod_cast hfloor, ?_⟩
    rcases max_choice (d - 53) (-1074) with hmax | hmax
    · exact .inr (above _ hmax.le)
    · exact .inl hmax
  next hfloor =>
    rw [not_lt, Ratio.le_floor (hden _), Ratio.value_timesTwo] at hfloor
    have hshift := scaled_shift r.value (max (d - 53) (-1074)) 1
    have hless := below _ (le_max_left (d - 53) (-1074))
    have hfifty : (2 : ℚ) ^ (54 : Int) = 4 * leastFull := by
      rw [cast_leastFull]
      norm_num
    push_cast at hfloor hshift
    rw [pow_one] at hshift
    have hleast := le_max_right (d - 53) (-1074)
    refine ⟨by omega, ?_, .inr ?_⟩
    · linarith
    · linarith

end Places

section Rounding

/-- Whether what `x` stands for is rounded to `m * 2 ^ e`. -/
structure Rounds (m : Nat) (e : Int) (x : ℚ) : Prop where
  low : (m : ℚ) - 1 / 2 ≤ x * 2 ^ (-e)
  high : x * 2 ^ (-e) ≤ m + 1 / 2
  odd : m % 2 = 1 → (m : ℚ) - 1 / 2 < x * 2 ^ (-e) ∧ x * 2 ^ (-e) < m + 1 / 2
  full : m = leastFull → -1074 < e → (m : ℚ) - 1 / 4 ≤ x * 2 ^ (-e)

/-- A significand of 53 bits, of fewer at the least place. -/
structure IsNormal (m : Nat) (e : Int) : Prop where
  least : -1074 ≤ e
  most : e ≤ 971
  upper : m < 2 * leastFull
  lower : e = -1074 ∨ leastFull ≤ m

theorem value_quarters (r : Ratio) (e : Int) :
    (r.timesTwo (2 - e)).value = 4 * (r.value * 2 ^ (-e)) := by
  rw [Ratio.value_timesTwo, sub_eq_add_neg, zpow_add₀ two_ne_zero]
  norm_num
  ring

theorem roundsTo_iff (hm : 0 < m) (hd : 0 < r.2) : roundsTo m e r = true ↔ Rounds m e r.value := by
  have hden := r.timesTwo_den hd (2 - e)
  have hvalue := value_quarters r e
  have hlow : ((4 * m - 2 : Nat) : ℚ) = 4 * m - 2 := by
    rw [Nat.cast_sub (by omega)]
    push_cast
    rfl
  have hfull : ((4 * m - 1 : Nat) : ℚ) = 4 * m - 1 := by
    rw [Nat.cast_sub (by omega)]
    push_cast
    rfl
  have hhigh : ((4 * m + 2 : Nat) : ℚ) = 4 * m + 2 := by
    push_cast
    rfl
  rw [roundsTo]
  dsimp only
  by_cases hedge : (decide (m = leastFull) && decide (-1074 < e)) = true
  · -- the least full significand is even
    rw [if_pos hedge]
    obtain ⟨rfl, he⟩ : m = leastFull ∧ -1074 < e := by simpa using hedge
    rw [if_pos (by decide), Bool.and_eq_true, decide_eq_true_eq, decide_eq_true_eq,
      Ratio.mul_le_iff hden, Ratio.le_mul_iff hden, hvalue, hfull, hhigh]
    constructor
    · rintro ⟨hl, hh⟩
      refine ⟨?_, ?_, fun hodd => absurd hodd (by decide), fun _ _ => ?_⟩ <;> linarith
    · intro h
      have hl := h.full rfl he
      have hh := h.high
      constructor <;> linarith
  · rw [if_neg hedge]
    have hedge' : m = leastFull → ¬ -1074 < e := by simpa using hedge
    split
    next heven =>
      rw [Bool.and_eq_true, decide_eq_true_eq, decide_eq_true_eq, Ratio.mul_le_iff hden,
        Ratio.le_mul_iff hden, hvalue, hlow, hhigh]
      constructor
      · rintro ⟨hl, hh⟩
        refine ⟨?_, ?_, fun hodd => by omega, fun hm he => absurd he (hedge' hm)⟩ <;> linarith
      · intro h
        have hl := h.low
        have hh := h.high
        constructor <;> linarith
    next hodd =>
      rw [Bool.and_eq_true, decide_eq_true_eq, decide_eq_true_eq, ← not_le, ← not_le,
        Ratio.mul_le_iff hden, Ratio.le_mul_iff hden, hvalue, hlow, hhigh, not_le, not_le]
      constructor
      · rintro ⟨hl, hh⟩
        refine ⟨?_, ?_, fun _ => ⟨?_, ?_⟩, fun hm he => absurd he (hedge' hm)⟩ <;> linarith
      · intro h
        obtain ⟨hl, hh⟩ := h.odd (by omega)
        constructor <;> linarith

/-- What is rounded to a number is below the next higher place. -/
theorem Rounds.upper (h : Rounds m e x) (hn : IsNormal m e) : x * 2 ^ (-e) < 2 * leastFull := by
  have hm : (m : ℚ) + 1 ≤ 2 * leastFull := by exact_mod_cast hn.upper
  have hh := h.high
  linarith

theorem ofRatio_eq (negative : Bool) (r : Ratio) : ofRatio negative r =
    let m := (r.timesTwo (-placeOf r)).neighbours.1
    let p : Nat × Int := if m = 2 * leastFull then (leastFull, placeOf r + 1) else (m, placeOf r)
    if 971 < p.2 then .infinite negative else .finite negative p.1 p.2 := by
  rw [ofRatio, placeOf]

theorem ofRatio_of_fits (negative : Bool) (hn : IsNormal m (placeOf r)) (hden : 0 < r.2)
    (h : Rounds m (placeOf r) r.value) : ofRatio negative r = .finite negative m (placeOf r) := by
  have hm : (r.timesTwo (-placeOf r)).neighbours.1 = m := by
    have hvalue := r.value_timesTwo (-placeOf r)
    exact Ratio.neighbours_eq (r.timesTwo_den hden _) (hvalue ▸ h.low) (hvalue ▸ h.high)
      (hvalue ▸ h.odd)
  have hless : m ≠ 2 * leastFull := hn.upper.ne
  have hmost : ¬ 971 < placeOf r := not_lt.2 hn.most
  rw [ofRatio_eq]
  dsimp only
  rw [hm, if_neg hless]
  exact if_neg hmost

/-- Below the least full significand, rounding at the next lower place carries. -/
theorem ofRatio_of_carries (negative : Bool) (hn : IsNormal leastFull e) (hleast : e ≠ -1074)
    (hnum : 0 < r.1) (hden : 0 < r.2) (hless : r.value * 2 ^ (-e) < leastFull)
    (h : Rounds leastFull e r.value) : ofRatio negative r = .finite negative leastFull e := by
  have hnear := h.full rfl (lt_of_le_of_ne hn.least (Ne.symm hleast))
  have hshift : r.value * 2 ^ (-(e - 1)) = 2 * (r.value * 2 ^ (-e)) := by
    have := scaled_shift r.value (e - 1) 1
    rw [this, Nat.cast_one, sub_add_cancel, pow_one, mul_comm]
  have hlast : placeOf r = e - 1 := by
    refine (isPlace_placeOf hnum hden).eq ⟨by have := hn.least; omega, ?_, .inr ?_⟩
    · rw [hshift]
      linarith
    · rw [hshift]
      have : (1 : ℚ) ≤ leastFull := by norm_num [leastFull]
      linarith
  have hm : (r.timesTwo (-placeOf r)).neighbours.1 = 2 * leastFull := by
    have hvalue := r.value_timesTwo (-placeOf r)
    rw [hlast, hshift] at hvalue
    rw [hlast]
    refine Ratio.neighbours_eq (r.timesTwo_den hden _) ?_ ?_ (fun hodd => absurd hodd (by decide)) <;>
      rw [hvalue] <;> push_cast <;> linarith
  have hmost : ¬ 971 < e := not_lt.2 hn.most
  rw [ofRatio_eq]
  dsimp only
  rw [hm, if_pos rfl, hlast, sub_add_cancel]
  exact if_neg hmost

/-- Rounding gives back the number that a ratio is near to. -/
theorem ofRatio_of_rounds (negative : Bool) (hn : IsNormal m e) (hnum : 0 < r.1) (hden : 0 < r.2)
    (h : Rounds m e r.value) : ofRatio negative r = .finite negative m e := by
  by_cases hfits : e = -1074 ∨ (leastFull : ℚ) ≤ r.value * 2 ^ (-e)
  · obtain rfl : placeOf r = e :=
      (isPlace_placeOf hnum hden).eq ⟨hn.least, h.upper hn, hfits⟩
    exact ofRatio_of_fits negative hn hden h
  · rw [not_or, not_le] at hfits
    obtain ⟨hleast, hless⟩ := hfits
    have hfull : m = leastFull := by
      have hm := hn.lower.resolve_left hleast
      have hup : (m : ℚ) < leastFull + 1 := by linarith [h.low]
      have hup : m < leastFull + 1 := by exact_mod_cast hup
      omega
    subst hfull
    exact ofRatio_of_carries negative hn hleast hnum hden hless h

/-- What a ratio is rounded to. -/
theorem ofRatio_cases (negative : Bool) (hnum : 0 < r.1) (hden : 0 < r.2) :
    ofRatio negative r = .infinite negative ∨
      ∃ m e, IsNormal m e ∧ ofRatio negative r = .finite negative m e := by
  have hplace := isPlace_placeOf hnum hden
  have hscaled := r.timesTwo_den hden (-placeOf r)
  have hvalue := r.value_timesTwo (-placeOf r)
  have hupper : (r.timesTwo (-placeOf r)).floor < 2 * leastFull := by
    rw [Ratio.floor_lt hscaled, hvalue]
    exact_mod_cast hplace.upper
  have hlower : placeOf r = -1074 ∨ leastFull ≤ (r.timesTwo (-placeOf r)).floor := by
    rw [Ratio.le_floor hscaled, hvalue]
    exact hplace.lower
  have hnext := (r.timesTwo (-placeOf r)).neighbours_fst
  have hleast := hplace.least
  rw [ofRatio_eq]
  generalize (r.timesTwo (-placeOf r)).neighbours.1 = m at *
  dsimp only
  by_cases hcarry : m = 2 * leastFull
  · rw [if_pos hcarry]
    by_cases hmost : 971 < placeOf r + 1
    · exact .inl (if_pos hmost)
    · exact .inr ⟨leastFull, _, ⟨by omega, by omega, by decide, .inr le_rfl⟩, if_neg hmost⟩
  · rw [if_neg hcarry]
    by_cases hmost : 971 < placeOf r
    · exact .inl (if_pos hmost)
    · exact .inr ⟨m, _, ⟨by omega, by omega, by omega, by omega⟩, if_neg hmost⟩

end Rounding

end Hotpatch.Binary64
