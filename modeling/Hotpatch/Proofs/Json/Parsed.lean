import Hotpatch.Proofs.Act
import Hotpatch.Proofs.Json.Roundtrip

/-! Whatever is read from JSON text comes back from the text that is written for it. -/

namespace Hotpatch.Json

variable {negative : Bool} {depth n : Nat} {j : Json} {js : List Json} {ms us : List (String × Json)}
  {ds cs r : List Char}

section Scalars

theorem number_lt (hds : ∀ c ∈ ds, isDigit c = true) : number ds < 10 ^ ds.length := by
  induction ds with
  | nil => exact Nat.one_pos
  | cons d ds ih =>
    have hrest := ih fun c hc => hds c (List.mem_cons_of_mem d hc)
    have hd : number [d] ≤ 9 := by
      have hd := hds d List.mem_cons_self
      simp only [isDigit, Bool.and_eq_true, decide_eq_true_eq, Char.le_def, UInt32.le_iff_toNat_le] at hd
      have hnine : d.toNat ≤ 57 := hd.2
      simp only [number, List.foldl_cons, List.foldl_nil]
      omega
    rw [← List.singleton_append, number_append, List.length_append, List.length_singleton, Nat.pow_add]
    nlinarith

theorem readInteger_plain (hds : ∀ c ∈ ds, isDigit c = true)
    (h : readInteger negative ds cs = .ok (j, r)) : IsPlain depth j := by
  rw [readInteger] at h
  split at h
  · cases h
  · next hlength =>
    cases h
    have hlt : number ds < 10 ^ longest :=
      (number_lt hds).trans_le (Nat.pow_le_pow_right (by decide) (not_lt.1 hlength))
    refine .int ?_
    split <;> simpa using hlt

/-- A number that can be read has digits before its point. -/
theorem whole_of_readNumber (h : readNumber negative cs = .ok (j, r)) :
    ∃ ws t, cs = ws ++ t ∧ IsWhole ws ∧ (ws = ['0'] ∨ Ends t) := by
  by_cases hzero : ∃ t, cs = '0' :: t
  · obtain ⟨t, rfl⟩ := hzero
    exact ⟨['0'], t, rfl, isWhole_zero, .inl rfl⟩
  · refine ⟨cs.takeWhile isDigit, cs.dropWhile isDigit, List.takeWhile_append_dropWhile.symm,
      ⟨fun c hc => List.mem_takeWhile_imp hc, fun hnil => ?_, .inr fun hhead => hzero ?_⟩,
      .inr fun c hc => ?_⟩
    · unfold readNumber at h
      split at h
      · exact hzero ⟨_, rfl⟩
      · rw [hnil] at h
        cases h
    · cases cs with
      | nil => cases hhead
      | cons c cs =>
        rw [List.takeWhile_cons] at hhead
        split at hhead
        · obtain rfl := Option.some.inj hhead
          exact ⟨cs, rfl⟩
        · cases hhead
    · have hdrop := List.head?_dropWhile_not isDigit cs
      rw [Option.mem_def.1 hc] at hdrop
      simpa using hdrop

theorem readNumber_plain (h : readNumber negative cs = .ok (j, r)) : IsPlain depth j := by
  obtain ⟨ws, t, rfl, hws, ht⟩ := whole_of_readNumber h
  rw [readNumber_parts negative hws ht] at h
  split at h
  · split at h
    · cases h
      exact .real (Binary64.isKept_ofDecimal _ _ _)
    · cases h
      exact .real (Binary64.isKept_ofDecimal _ _ _)
  · split at h
    · cases h
      exact .real (Binary64.isKept_ofDecimal _ _ _)
    · exact readInteger_plain hws.digits h

theorem readScalar_plain (h : readScalar cs = .ok (j, r)) : IsPlain depth j := by
  have hword : ∀ word v, readWord word v cs = .ok (j, r) → v = j := by
    intro word v h
    rw [readWord] at h
    split at h
    · cases h
      rfl
    · cases h
  unfold readScalar at h
  split at h
  · rename_i cs
    cases htext : readText cs with
    | error e =>
      rw [htext] at h
      cases h
    | ok p =>
      rw [htext] at h
      cases h
      exact .str p.1
  · exact hword _ _ h ▸ .null
  · exact hword _ _ h ▸ .bool true
  · exact hword _ _ h ▸ .bool false
  · exact hword _ _ h ▸ .real .notNumber
  · exact hword _ _ h ▸ .real (.infinite false)
  · exact hword _ _ h ▸ .real (.infinite true)
  · exact readNumber_plain h
  · exact readNumber_plain h

end Scalars

section Values

theorem nodup_setMember (k : String) (j : Json) (hms : (ms.map Prod.fst).Nodup) :
    ((setMember k j ms).map Prod.fst).Nodup ∧
      ∀ k' ∈ (setMember k j ms).map Prod.fst, k' = k ∨ k' ∈ ms.map Prod.fst := by
  induction ms with
  | nil => simp [setMember]
  | cons m ms ih =>
    obtain ⟨k', j'⟩ := m
    obtain ⟨hfresh, hrest⟩ := List.nodup_cons.1 hms
    rw [setMember]
    split
    · next hk =>
      subst hk
      exact ⟨hms, fun x hx => .inr hx⟩
    · next hk =>
      obtain ⟨hnodup, hnames⟩ := ih hrest
      refine ⟨List.nodup_cons.2 ⟨fun hmem => ?_, hnodup⟩, fun x hx => ?_⟩
      · exact (hnames _ hmem).elim hk hfresh
      · rcases List.mem_cons.1 hx with rfl | hx
        · exact .inr List.mem_cons_self
        · exact (hnames _ hx).imp_right (List.mem_cons_of_mem _)

theorem mem_setMember {k : String} {m : String × Json} (hm : m ∈ setMember k j ms) :
    m = (k, j) ∨ m ∈ ms := by
  induction ms with
  | nil => exact .inl (List.mem_singleton.1 hm)
  | cons m' ms ih =>
    rw [setMember] at hm
    split at hm
    · exact (List.mem_cons.1 hm).imp_right (List.mem_cons_of_mem _)
    · rcases List.mem_cons.1 hm with rfl | hm
      · exact .inr List.mem_cons_self
      · exact (ih hm).imp_right (List.mem_cons_of_mem _)

/-- What reading with so much fuel gives. -/
structure GivesPlain (n : Nat) : Prop where
  value : ∀ {depth cs j r}, readValue depth n cs = .ok (j, r) → IsPlain depth j
  items : ∀ {depth cs js r}, readItems depth n cs = .ok (js, r) → ∀ j ∈ js, IsPlain depth j
  members : ∀ {depth ms cs us r}, (ms.map Prod.fst).Nodup → (∀ m ∈ ms, IsPlain depth m.2) →
    readMembers depth n ms cs = .ok (us, r) →
      (us.map Prod.fst).Nodup ∧ ∀ m ∈ us, IsPlain depth m.2

theorem GivesPlain.nextValue (hn : GivesPlain n) (h : readValue depth (n + 1) cs = .ok (j, r)) :
    IsPlain depth j := by
  unfold readValue at h
  split at h
  · split at h
    · cases h
    · next hdepth =>
      obtain ⟨d, rfl⟩ := Nat.exists_eq_succ_of_ne_zero hdepth
      split at h
      · cases h
        exact .arr fun _ hmem => absurd hmem List.not_mem_nil
      · obtain ⟨⟨js, r'⟩, hjs, hj⟩ := exists_of_map h
        cases hj
        exact .arr (hn.items hjs)
  · split at h
    · cases h
    · next hdepth =>
      obtain ⟨d, rfl⟩ := Nat.exists_eq_succ_of_ne_zero hdepth
      split at h
      · cases h
        exact .obj List.nodup_nil fun _ hmem => absurd hmem List.not_mem_nil
      · obtain ⟨⟨us, r'⟩, hus, hj⟩ := exists_of_map h
        cases hj
        have hnone : (([] : List (String × Json)).map Prod.fst).Nodup := List.nodup_nil
        obtain ⟨hnames, hplain⟩ :=
          hn.members hnone (fun _ hmem => absurd hmem List.not_mem_nil) hus
        exact .obj hnames hplain
  · exact readScalar_plain h

theorem GivesPlain.nextItems (hn : GivesPlain n) (h : readItems depth (n + 1) cs = .ok (js, r)) :
    ∀ j ∈ js, IsPlain depth j := by
  rw [readItems] at h
  obtain ⟨⟨j, r'⟩, hj, h⟩ := exists_of_bind h
  have hplain : IsPlain depth j := hn.value hj
  dsimp only at h
  split at h
  · obtain ⟨⟨rest, r''⟩, hrest, h⟩ := exists_of_bind h
    cases h
    exact List.forall_mem_cons.2 ⟨hplain, hn.items hrest⟩
  · cases h
    simpa using hplain
  · cases h

theorem GivesPlain.nextMembers (hn : GivesPlain n) (hnames : (ms.map Prod.fst).Nodup)
    (hms : ∀ m ∈ ms, IsPlain depth m.2) (h : readMembers depth (n + 1) ms cs = .ok (us, r)) :
    (us.map Prod.fst).Nodup ∧ ∀ m ∈ us, IsPlain depth m.2 := by
  unfold readMembers at h
  split at h
  · obtain ⟨⟨k, r'⟩, -, h⟩ := exists_of_bind h
    dsimp only at h
    split at h
    · obtain ⟨⟨j, r''⟩, hj, h⟩ := exists_of_bind h
      have hset := (nodup_setMember k j hnames).1
      have hplain : ∀ m ∈ setMember k j ms, IsPlain depth m.2 := by
        intro m hm
        rcases mem_setMember hm with rfl | hm
        · exact hn.value hj
        · exact hms m hm
      dsimp only at h
      split at h
      · exact hn.members hset hplain h
      · cases h
        exact ⟨hset, hplain⟩
      · cases h
    · cases h
  · cases h

theorem givesPlain (n : Nat) : GivesPlain n := by
  induction n with
  | zero =>
    refine ⟨fun h => ?_, fun h => ?_, fun _ _ h => ?_⟩
    · rw [readValue] at h
      cases h
    · rw [readItems] at h
      cases h
    · rw [readMembers] at h
      cases h
  | succ n ih => exact ⟨ih.nextValue, ih.nextItems, ih.nextMembers⟩

/-- Every value that is read comes back from its text. -/
theorem plain_of_parse {s : String} (h : parse s = .ok j) : IsPlain deepest j := by
  obtain ⟨⟨j', r⟩, hread, h⟩ := exists_of_bind h
  dsimp only at h
  split at h
  · cases h
    exact (givesPlain _).value hread
  · cases h

end Values

end Hotpatch.Json
