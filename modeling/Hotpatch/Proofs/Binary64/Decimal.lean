import Mathlib.Data.Nat.Digits.Defs
import Mathlib.Tactic.LinearCombination
import Hotpatch.Proofs.Binary64.Rounding

/-! Decimals that read back. A decimal near to a number is rounded to it, however its digits and its exponent
share the places; 17 digits come near enough to every number, since they tell more than its 53 bits do. -/

namespace Hotpatch.Binary64

variable {r : Ratio} {m n : Nat} {e : Int} {x : ℚ}

section Length

/-- How many digits a number has tells it up to a factor of ten. -/
theorem length_bounds (hn : 0 < n) : (10 : ℚ) ^ (((toString n).length : Int) - 1) ≤ n ∧
    (n : ℚ) < 10 ^ ((toString n).length : Int) := by
  have hlength : (toString n).length = (Nat.toDigits 10 n).length := by
    rw [Nat.toString_eq_repr, ← String.length_toList, Nat.toList_repr]
  have hpos : 0 < (Nat.toDigits 10 n).length := List.length_pos_iff.2 Nat.toDigits_ne_nil
  rw [hlength]
  obtain ⟨k, hk⟩ : ∃ k, (Nat.toDigits 10 n).length = k + 1 := ⟨_, (Nat.succ_pred_eq_of_pos hpos).symm⟩
  rw [hk]
  constructor
  · rw [Nat.cast_succ, add_sub_cancel_right, zpow_natCast]
    rcases Nat.eq_zero_or_pos k with rfl | hk'
    · exact_mod_cast hn
    · have hless : ¬ n < 10 ^ k := by
        rw [← Nat.length_toDigits_le_iff (by decide) hk', hk]
        omega
      exact_mod_cast not_lt.1 hless
  · rw [zpow_natCast]
    exact_mod_cast (Nat.length_toDigits_le_iff (by decide) (Nat.succ_pos k)).1 hk.le

theorem pow_lt_of_lt {a b : Int} (h : (10 : ℚ) ^ a < 10 ^ b) : a < b :=
  (zpow_lt_zpow_iff_right₀ (by norm_num)).1 h

theorem pointOf_whole (hr : 0 < r.2) (hone : 1 ≤ r.value) (k : Nat) :
    (10 : ℚ) ^ (pointOf r (k + 1) - 1) ≤ r.value ∧ r.value < 10 ^ pointOf r (k + 1) := by
  have hfloor : 1 ≤ r.floor := (Ratio.le_floor hr).2 (by exact_mod_cast hone)
  obtain ⟨hlow, hhigh⟩ := length_bounds hfloor
  have hle : (r.floor : ℚ) ≤ r.value := (Ratio.le_floor hr).1 le_rfl
  have hlt : r.value < (r.floor + 1 : Nat) := (Ratio.floor_lt hr).1 (Nat.lt_succ_self _)
  have hnext : ((r.floor + 1 : Nat) : ℚ) ≤ 10 ^ ((toString r.floor).length : Int) := by
    rw [zpow_natCast] at hhigh ⊢
    have hhigh : r.floor < 10 ^ (toString r.floor).length := by exact_mod_cast hhigh
    exact_mod_cast hhigh
  rw [pointOf, if_neg (by omega)]
  exact ⟨hlow.trans hle, hlt.trans_le hnext⟩

/-- Where the point stands tells a ratio up to a factor of ten, if it is not too small. -/
theorem pointOf_bounds (hr : 0 < r.2) {k : Nat} (hk : 1 ≤ r.value * 10 ^ k) :
    (10 : ℚ) ^ (pointOf r (k + 1) - 1) ≤ r.value ∧ r.value < 10 ^ pointOf r (k + 1) := by
  induction k generalizing r with
  | zero =>
    rw [pow_zero, mul_one] at hk
    exact pointOf_whole hr hk 0
  | succ k ih =>
    by_cases hone : 1 ≤ r.value
    · exact pointOf_whole hr hone (k + 1)
    · have hzero : r.floor = 0 := by
        rw [← Nat.lt_one_iff, Ratio.floor_lt hr]
        exact_mod_cast not_le.1 hone
      have hten : Ratio.value (r.1 * 10, r.2) = r.value * 10 := by
        rw [Ratio.value, Ratio.value]
        push_cast
        ring
      have hrest := ih (r := (r.1 * 10, r.2)) hr (by rw [hten, mul_assoc, ← pow_succ']; exact hk)
      rw [pointOf, if_pos hzero]
      rw [hten] at hrest
      constructor
      · rw [← mul_le_mul_iff_left₀ (by norm_num : (0 : ℚ) < 10), ← zpow_add_one₀ (by norm_num),
          sub_add_cancel]
        exact hrest.1
      · rw [← mul_lt_mul_iff_left₀ (by norm_num : (0 : ℚ) < 10), ← zpow_add_one₀ (by norm_num),
          sub_add_cancel]
        exact hrest.2

end Length

section Decimals

theorem ratioOf_den (m : Nat) (e : Int) : 0 < (ratioOf m e).2 :=
  Ratio.timesTwo_den (r := (m, 1)) Nat.one_pos e

theorem value_ratioOf (m : Nat) (e : Int) : (ratioOf m e).value = m * 2 ^ e := by
  rw [ratioOf, Ratio.value_timesTwo, Ratio.value, Nat.cast_one, div_one]

theorem value_decimal (n : Nat) (k : Int) : (Ratio.timesTen (n, 1) k).value = n * 10 ^ k := by
  rw [Ratio.value_timesTen, Ratio.value, Nat.cast_one, div_one]

theorem two_pow_lt : (2 : ℚ) ^ 1075 < 10 ^ 399 := by
  exact_mod_cast (by decide +kernel : 2 ^ 1075 < 10 ^ 399)

/-- What is rounded to a number that is not zero is neither very small nor very large. -/
theorem Rounds.range (h : Rounds m e x) (hn : IsNormal m e) (hm : 0 < m) :
    (10 : ℚ) ^ (-399 : Int) < x ∧ x < 10 ^ (399 : Int) := by
  have hback : x = x * 2 ^ (-e) * 2 ^ e := by
    rw [mul_assoc, ← zpow_add₀ two_ne_zero, neg_add_cancel, zpow_zero, mul_one]
  have hone : (1 : ℚ) ≤ m := by exact_mod_cast hm
  have hlow : (2 : ℚ) ^ (-1 : Int) ≤ x * 2 ^ (-e) := by
    rw [show (2 : ℚ) ^ (-1 : Int) = 1 / 2 by norm_num]
    linarith [h.low]
  constructor
  · calc (10 : ℚ) ^ (-399 : Int) < 2 ^ (-1075 : Int) := by
          rw [zpow_neg, zpow_neg, inv_lt_inv₀ (by positivity) (by positivity)]
          exact two_pow_lt
      _ = 2 ^ (-1 : Int) * 2 ^ (-1074 : Int) := by rw [← zpow_add₀ two_ne_zero]; rfl
      _ ≤ x * 2 ^ (-e) * 2 ^ e :=
        mul_le_mul hlow (zpow_le_zpow_right₀ one_le_two hn.least) (by positivity)
          (le_trans (by positivity) hlow)
      _ = x := hback.symm
  · calc x = x * 2 ^ (-e) * 2 ^ e := hback
      _ < 2 * leastFull * 2 ^ e := mul_lt_mul_of_pos_right (h.upper hn) (by positivity)
      _ ≤ 2 ^ (53 : Int) * 2 ^ (971 : Int) :=
        mul_le_mul (by norm_num [leastFull]) (zpow_le_zpow_right₀ one_le_two hn.most)
          (by positivity) (by positivity)
      _ = 2 ^ (1024 : Int) := by rw [← zpow_add₀ two_ne_zero]; rfl
      _ ≤ 2 ^ (1075 : Int) := zpow_le_zpow_right₀ one_le_two (by decide)
      _ < 10 ^ (399 : Int) := two_pow_lt

/-- A decimal that is near to a number is read as this number. -/
theorem ofDecimal_of_rounds (negative : Bool) {k : Int} (hn : IsNormal m e) (hm : 0 < m)
    (h : Rounds m e (n * 10 ^ k)) : ofDecimal negative n k = .finite negative m e := by
  obtain ⟨hlow, hhigh⟩ := h.range hn hm
  have hten : (0 : ℚ) < 10 ^ k := by positivity
  have hpos : 0 < n := by
    have hpos : (0 : ℚ) < n * 10 ^ k := lt_trans (by positivity) hlow
    exact_mod_cast pos_of_mul_pos_left hpos hten.le
  obtain ⟨hleast, hmost⟩ := length_bounds hpos
  have habove : -399 < ((toString n).length : Int) + k := by
    refine pow_lt_of_lt (hlow.trans ?_)
    rw [zpow_add₀ (by norm_num)]
    gcongr
  have hbelow : ((toString n).length : Int) - 1 + k < 399 := by
    refine pow_lt_of_lt (lt_of_le_of_lt ?_ hhigh)
    rw [zpow_add₀ (by norm_num)]
    gcongr
  have hsmall : ¬ (n = 0 || (((toString n).length : Int) + k < -400 : Bool)) = true := by
    simp only [Bool.or_eq_true, decide_eq_true_eq]
    omega
  have hlarge : ¬ 400 < ((toString n).length : Int) + k := by omega
  rw [ofDecimal, if_neg hsmall, if_neg hlarge]
  refine ofRatio_of_rounds negative hn ?_ (Ratio.timesTen_den Nat.one_pos k) ?_
  · unfold Ratio.timesTen
    split
    · exact Nat.mul_pos hpos (Nat.pow_pos (by decide))
    · exact hpos
  · rw [value_decimal]
    exact h

/-- A number that was read: one of those that are kept, or none that has digits. -/
inductive IsKept : Binary64 → Prop
  | zero (negative : Bool) : IsKept (zero negative)
  | finite (negative : Bool) {m : Nat} {e : Int} (hn : IsNormal m e) (hm : 0 < m) :
    IsKept (.finite negative m e)
  | infinite (negative : Bool) : IsKept (.infinite negative)
  | notNumber : IsKept .notNumber

theorem isKept_ofDecimal (negative : Bool) (n : Nat) (k : Int) : IsKept (ofDecimal negative n k) := by
  rw [ofDecimal]
  split
  · exact .zero negative
  · next hn =>
    split
    · exact .infinite negative
    · have hpos : 0 < n := by
        simp only [Bool.or_eq_true, decide_eq_true_eq, not_or] at hn
        omega
      have hnum : 0 < (Ratio.timesTen (n, 1) k).1 := by
        unfold Ratio.timesTen
        split
        · exact Nat.mul_pos hpos (Nat.pow_pos (by decide))
        · exact hpos
      obtain hinf | ⟨m, e, hnormal, heq⟩ :=
        ofRatio_cases negative hnum (Ratio.timesTen_den Nat.one_pos k)
      · rw [hinf]
        exact .infinite negative
      · rw [heq]
        rcases Nat.eq_zero_or_pos m with rfl | hm
        · obtain rfl : e = -1074 := hnormal.lower.resolve_right (by decide)
          exact .zero negative
        · exact .finite negative hnormal hm

end Decimals

section Shortest

theorem digitsAt_eq {place : Int} {ds : Digits} (hm : 0 < m) (h : digitsAt m e place = some ds) :
    ∃ n, ds = Digits.of n place ∧ Rounds m e (n * 10 ^ (-place)) := by
  have back : ∀ n, roundsTo m e (Ratio.timesTen (n, 1) (-place)) = true →
      Rounds m e (n * 10 ^ (-place)) := by
    intro n hn
    rw [← value_decimal]
    exact (roundsTo_iff hm (Ratio.timesTen_den Nat.one_pos _)).1 hn
  rw [digitsAt] at h
  dsimp only at h
  split at h
  next hnear => exact ⟨_, (Option.some.inj h).symm, back _ hnear⟩
  next =>
    split at h
    next hfar => exact ⟨_, (Option.some.inj h).symm, back _ hfar⟩
    next => cases h

/-- One unit of the last of 17 digits is less than a place, as the digits are more than the bits. -/
theorem unit_le {p : Int} (hp : (10 : ℚ) ^ (p - 1) ≤ m * 2 ^ e) :
    (10 : ℚ) ^ (-(17 - p)) * 2 ^ (-e) * 10 ^ 16 ≤ m := by
  calc (10 : ℚ) ^ (-(17 - p)) * 2 ^ (-e) * 10 ^ 16 = 10 ^ (p - 1) * 2 ^ (-e) := by
        rw [mul_right_comm, ← zpow_natCast, ← zpow_add₀ (by norm_num)]
        congr 2
        push_cast
        omega
    _ ≤ m * 2 ^ e * 2 ^ (-e) := by gcongr
    _ = m := by rw [mul_assoc, ← zpow_add₀ two_ne_zero, add_neg_cancel, zpow_zero, mul_one]

/-- What is off by half a unit is rounded to the number, if a unit is that small. -/
theorem rounds_of_near {place : Int} {d : ℚ} (hn : IsNormal m e)
    (hunit : (10 : ℚ) ^ (-place) * 2 ^ (-e) * 10 ^ 16 ≤ m)
    (hlow : m * 2 ^ e * 10 ^ place ≤ d + 1 / 2) (hhigh : d ≤ m * 2 ^ e * 10 ^ place + 1 / 2) :
    Rounds m e (d * 10 ^ (-place)) := by
  have hoff : d * 10 ^ (-place) * 2 ^ (-e) - m =
      (d - m * 2 ^ e * 10 ^ place) * (10 ^ (-place) * 2 ^ (-e)) := by
    have hten : (10 : ℚ) ^ place * 10 ^ (-place) = 1 := by
      rw [← zpow_add₀ (by norm_num), add_neg_cancel, zpow_zero]
    have htwo : (2 : ℚ) ^ e * 2 ^ (-e) = 1 := by
      rw [← zpow_add₀ two_ne_zero, add_neg_cancel, zpow_zero]
    linear_combination (m : ℚ) * (10 ^ place * 10 ^ (-place)) * htwo + m * hten
  have hpos : (0 : ℚ) < 10 ^ (-place) * 2 ^ (-e) := by positivity
  have hless : (m : ℚ) + 1 ≤ 2 * leastFull := by exact_mod_cast hn.upper
  generalize (10 : ℚ) ^ (-place) * 2 ^ (-e) = unit at *
  generalize (m : ℚ) * 2 ^ e * 10 ^ place = y at *
  have hup : (d - y) * unit ≤ 1 / 2 * unit := mul_le_mul_of_nonneg_right (by linarith) hpos.le
  have hdown : -(1 / 2) * unit ≤ (d - y) * unit :=
    mul_le_mul_of_nonneg_right (by linarith) hpos.le
  have hfull : (leastFull : ℚ) = 4503599627370496 := by norm_num [leastFull]
  refine ⟨by linarith, by linarith, fun _ => ⟨by linarith, by linarith⟩, fun hm _ => ?_⟩
  have hedge : (m : ℚ) = leastFull := by rw [hm]
  linarith

/-- Every number has digits that read back, at a place that leaves 17 of them. -/
theorem digitsAt_isSome (hn : IsNormal m e) (hm : 0 < m) {p : Int}
    (hp : (10 : ℚ) ^ (p - 1) ≤ m * 2 ^ e) : (digitsAt m e (17 - p)).isSome = true := by
  have hden := Ratio.timesTen_den (ratioOf_den m e) (17 - p)
  obtain ⟨hlow, hhigh⟩ := Ratio.neighbours_near hden
  rw [Ratio.value_timesTen, value_ratioOf] at hlow hhigh
  have hback : roundsTo m e (Ratio.timesTen (((ratioOf m e).timesTen (17 - p)).neighbours.1, 1)
      (-(17 - p))) = true := by
    rw [roundsTo_iff hm (Ratio.timesTen_den Nat.one_pos _), value_decimal]
    exact rounds_of_near hn (unit_le hp) hlow hhigh
  rw [digitsAt]
  dsimp only
  rw [if_pos hback]
  rfl

theorem shortest_eq {place : Int} {left : Nat} (hm : 0 < m) {k : Nat} (hk : k < left)
    (h : (digitsAt m e (place + k)).isSome = true) : ∃ n place', shortest m e place left =
      Digits.of n place' ∧ Rounds m e (n * 10 ^ (-place')) := by
  induction left generalizing place k with
  | zero => omega
  | succ left ih =>
    rw [shortest]
    cases hds : digitsAt m e place with
    | some ds =>
      obtain ⟨n, rfl, hr⟩ := digitsAt_eq hm hds
      exact ⟨n, place, rfl, hr⟩
    | none =>
      cases k with
      | zero =>
        rw [Nat.cast_zero, add_zero, hds] at h
        cases h
      | succ k =>
        refine ih (Nat.lt_of_succ_lt_succ hk) (k := k) ?_
        rw [Nat.cast_succ, add_comm (k : Int), ← add_assoc] at h
        exact h

/-- The digits of a number are those of a decimal that is read as it. -/
theorem exists_shortest (hn : IsNormal m e) (hm : 0 < m) : ∃ n place,
    shortest m e (1 - pointOf (ratioOf m e) 400) 17 = Digits.of n place ∧
      Rounds m e (n * 10 ^ (-place)) := by
  have hlarge : 1 ≤ (ratioOf m e).value * 10 ^ 399 := by
    rw [value_ratioOf]
    have hone : (1 : ℚ) ≤ m := by exact_mod_cast hm
    have hsmall : (2 : ℚ) ^ (-1075 : Int) ≤ m * 2 ^ e := by
      calc (2 : ℚ) ^ (-1075 : Int) ≤ 2 ^ e := zpow_le_zpow_right₀ one_le_two (by have := hn.least; omega)
        _ ≤ m * 2 ^ e := le_mul_of_one_le_left (by positivity) hone
    calc (1 : ℚ) = 2 ^ (-1075 : Int) * 2 ^ (1075 : Int) := by rw [← zpow_add₀ two_ne_zero]; rfl
      _ ≤ m * 2 ^ e * 10 ^ 399 :=
        mul_le_mul hsmall two_pow_lt.le (by positivity) (by positivity)
  have hpoint := (pointOf_bounds (ratioOf_den m e) hlarge).1
  rw [value_ratioOf] at hpoint
  have hsome := digitsAt_isSome hn hm hpoint
  refine shortest_eq hm (k := 16) (by decide) ?_
  rw [show (1 - pointOf (ratioOf m e) 400 + ((16 : Nat) : Int)) = 17 - pointOf (ratioOf m e) 400 by
    omega]
  exact hsome

end Shortest

end Hotpatch.Binary64
