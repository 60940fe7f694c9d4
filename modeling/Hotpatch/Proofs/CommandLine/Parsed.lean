import Mathlib.Data.Nat.Digits.Defs
import Hotpatch.CommandLine.Options
import Hotpatch.Proofs.Act

/-! What holds of the arguments that a command line is taken apart into, whatever is on it. They start
out with nothing given, and every option and the row of patches change them on their own, so what
each of these keeps holds at the end. An integer that is read has no more digits than are allowed. -/

namespace Hotpatch

namespace Text

variable {c : Char} {cs : List Char} {d n : Nat}

theorem digit?_lt (hd : digit? c = some d) : d < 10 := by
  rw [digit?, Option.map_eq_some_iff] at hd
  obtain ⟨z, hz, rfl⟩ := hd
  have hrange := List.find?_some hz
  simp only [Bool.and_eq_true, decide_eq_true_eq] at hrange
  omega

/-- Every digit makes a number ten times as large at most. -/
theorem readDigits_lt {acc k : Nat} {fresh : Bool} (hacc : acc < 10 ^ k)
    (hn : readDigits acc fresh cs = some n) :
    n < 10 ^ (k + cs.countP fun c => (digit? c).isSome) := by
  induction cs generalizing acc k fresh with
  | nil =>
    cases fresh with
    | true => cases hn
    | false =>
      cases hn
      exact hacc
  | cons c cs ih =>
    by_cases hc : c = '_'
    · subst hc
      rw [readDigits] at hn
      split at hn
      · cases hn
      · refine Nat.lt_of_lt_of_le (ih hacc hn) (Nat.pow_le_pow_right (by decide) ?_)
        rw [List.countP_cons]
        omega
    · rw [readDigits, Option.bind_eq_some_iff] at hn
      · obtain ⟨d, hd, hn⟩ := hn
        have hd' := digit?_lt hd
        have hnext : acc * 10 + d < 10 ^ (k + 1) := by
          rw [Nat.pow_succ]
          omega
        rw [List.countP_cons_of_pos (by rw [hd]; rfl), ← Nat.add_assoc, Nat.add_right_comm]
        exact ih hnext hn
      · exact fun h => hc h

theorem natural?_lt (hn : natural? cs = some n) : n < 10 ^ mostDigits := by
  rw [natural?] at hn
  split at hn
  · cases hn
  · next hcount =>
    have hlt := readDigits_lt (k := 0) Nat.one_pos hn
    rw [Nat.zero_add] at hlt
    exact Nat.lt_of_lt_of_le hlt (Nat.pow_le_pow_right (by decide) (Nat.not_lt.1 hcount))

theorem integer?_lt {s : String} {i : Int} (hi : integer? s = some i) :
    i.natAbs < 10 ^ mostDigits := by
  rw [integer?] at hi
  split at hi
  all_goals
    obtain ⟨m, hm, rfl⟩ := Option.map_eq_some_iff.1 hi
    obtain ⟨n, hn, ⟨⟩⟩ := Option.bind_eq_some_iff.1 hm
    simpa using natural?_lt hn

end Text

namespace CommandLine

variable {J : Arguments → Prop} {a a' : Arguments}

/-- What options and patches keep. -/
structure Kept (J : Arguments → Prop) : Prop where
  patches : ∀ a ps, J a → J { a with patches := ps }
  option : ∀ a a' s v, take a s v = .ok a' → J a → J a'

theorem Kept.takeAll (hJ : Kept J) {gs : List Given} (ha : J a) (h : takeAll a gs = .ok a') :
    J a' := by
  induction gs generalizing a with
  | nil =>
    cases h
    exact ha
  | cons g gs ih =>
    obtain ⟨b, hb, hrest⟩ := exists_of_bind h
    exact ih (hJ.option _ _ _ _ hb ha) hrest

theorem Kept.takeRow (hJ : Kept J) {r : Reading} (row : List Item) (hr : J r.arguments) :
    J (takeRow r row).arguments := by
  rw [CommandLine.takeRow]
  split
  · exact hr
  · split
    · exact hr
    · exact hJ.patches _ _ hr

theorem Kept.read (hJ : Kept J) {r r' : Reading} {row : List Item} {wait : Option Waiting}
    {is : List Item} (hr : J r.arguments) (h : read r row wait is = .ok r') : J r'.arguments := by
  induction is generalizing r row wait with
  | nil =>
    cases wait with
    | none =>
      cases h
      exact hJ.takeRow row hr
    | some w => cases h
  | cons i is ih =>
    cases wait with
    | some w =>
      cases i with
      | plain v =>
        obtain ⟨b, hb, hrest⟩ := exists_of_bind h
        exact ih (hJ.takeAll hr hb) hrest
      | hyphens => cases h
      | option s flag attached => cases h
      | unknown s => cases h
    | none =>
      cases i with
      | plain v => exact ih hr h
      | hyphens => exact ih hr h
      | unknown s =>
        refine ih ?_ h
        exact hJ.takeRow row hr
      | option s flag attached =>
        obtain ⟨f, -, hrest⟩ := exists_of_bind h
        split at hrest
        · exact ih (hJ.takeRow row hr) hrest
        · obtain ⟨b, hb, hrest⟩ := exists_of_bind hrest
          exact ih (hJ.takeAll (hJ.takeRow row hr) hb) hrest

/-- What holds of no arguments at all, and is kept, holds of all that can be parsed. -/
theorem Kept.parse (hJ : Kept J) (hnone : J .none) {argv : List String} (h : parse argv = .ok a) :
    J a := by
  obtain ⟨is, -, h⟩ := exists_of_bind h
  obtain ⟨r, hread, h⟩ := exists_of_bind h
  split at h
  · cases h
    exact hJ.read (r := ⟨.none, false, []⟩) hnone hread
  · cases h

theorem take_jobs {s : Spec} {value : Option String} (h : take a s value = .ok a') :
    a'.jobs = a.jobs ∨ jobsOf s value = .ok a'.jobs := by
  rw [take] at h
  split at h
  case h_1 => cases h
  case h_2 | h_3 =>
    split at h
    · cases h
    · cases h
      exact .inl rfl
  case h_6 =>
    obtain ⟨n, hn, h⟩ := exists_of_bind h
    cases h
    exact .inr hn
  all_goals
    cases h
    exact .inl rfl

/-- The number of jobs has no more digits than an integer may have. -/
theorem jobs_lt {argv : List String} (h : parse argv = .ok a) :
    ∀ n ∈ a.jobs, n.natAbs < 10 ^ Text.mostDigits := by
  refine Kept.parse (J := fun a => ∀ n ∈ a.jobs, n.natAbs < 10 ^ Text.mostDigits)
    ⟨fun a ps ha => ha, fun a a' s v htake ha n hn => ?_⟩ ?_ h
  · rcases take_jobs htake with hsame | hjobs
    · exact ha n (hsame ▸ hn)
    · cases v with
      | none =>
        rw [← Except.ok.inj hjobs] at hn
        cases hn
      | some text =>
        rw [jobsOf] at hjobs
        split at hjobs
        · next m hm =>
          rw [← Except.ok.inj hjobs, Option.mem_some_iff] at hn
          rw [← hn]
          exact Text.integer?_lt hm
        · cases hjobs
  · rintro n ⟨⟩
    exact Nat.pow_pos (by decide)

end CommandLine

end Hotpatch
