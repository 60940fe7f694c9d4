import Mathlib.Data.List.Basic
import Hotpatch.Text.Blank
import Hotpatch.Text.Lines
import Hotpatch.Text.Utf8

/-! Texts that are written and read again: what is encoded is decoded as it was, lines that are written
one after another are cut where they end, and words that are set apart are found. -/

namespace Hotpatch

/-- Only the characters of a text are looked at, not all that there are. -/
instance (priority := 2000) decidableForallMem (p : Char → Prop) [DecidablePred p]
    (cs : List Char) : Decidable (∀ c ∈ cs, p c) :=
  List.decidableBAll p cs

theorem toList_bytes (bs : ByteArray) : bs.toList = bs.data.toList := by
  have loop : ∀ i r, ByteArray.toList.loop bs i r = r.reverse ++ bs.data.toList.drop i := by
    intro i r
    induction i, r using ByteArray.toList.loop.induct bs with
    | case1 i r hi ih =>
      have hlen : i < bs.data.toList.length := by
        rw [Array.length_toList]
        exact hi
      have hget : bs.get! i = bs.data.toList[i] := by
        rw [ByteArray.get!, Array.getElem_toList]
        exact getElem!_pos bs.data i _
      rw [ByteArray.toList.loop, if_pos hi, ih, List.drop_eq_getElem_cons hlen, hget,
        List.reverse_cons, List.append_assoc]
      rfl
    | case2 i r hi =>
      have hlen : bs.data.toList.length ≤ i := by
        rw [Array.length_toList]
        exact Nat.not_lt.1 hi
      rw [ByteArray.toList.loop, if_neg hi, List.drop_eq_nil_of_le hlen, List.append_nil]
  exact loop 0 []

namespace Text

/-- The bytes of a text, character by character. -/
theorem encode_eq (s : String) : encode s = s.toList.flatMap String.utf8EncodeChar := by
  rw [encode, toList_bytes, String.toUTF8, ← String.utf8Encode_toList, List.utf8Encode,
    List.data_toByteArray]

/-- A first byte that asks for others is read with them. -/
theorem front_of_demand {b t lo hi : UInt8} {lead : Nat} (ts bs : Bytes)
    (hb : 0x80 ≤ b.toNat) (hd : demand b = some (ts.length + 1, lo, hi, lead))
    (hlo : lo.toNat ≤ t.toNat) (hhi : t.toNat ≤ hi.toNat) (hts : ∀ x ∈ ts, isTail x = true) :
    front b (t :: (ts ++ bs)) = .char (scalar lead (t :: ts)) (ts.length + 2) := by
  have hfirst : ¬ b < 0x80 := by
    rw [UInt8.lt_iff_toNat_lt]
    exact Nat.not_lt.2 hb
  have hwithin : ¬ ((t < lo || hi < t) = true) := by
    simp only [Bool.or_eq_true, decide_eq_true_eq, UInt8.lt_iff_toNat_lt]
    omega
  have hgood : ((ts ++ bs).take (ts.length + 1 - 1)).takeWhile isTail = ts := by
    rw [Nat.add_sub_cancel, List.take_left]
    have hall : (ts ++ []).takeWhile isTail = ts ++ [].takeWhile isTail :=
      List.takeWhile_append_of_pos hts
    simpa using hall
  rw [front, if_neg hfirst, hd]
  dsimp only
  simp only [Bool.or_eq_true, decide_eq_true_eq] at hwithin
  rw [if_neg (by simpa using hwithin), hgood, if_pos (by omega)]

theorem toNat_ofNat {n : Nat} (h : n < 256) : (UInt8.ofNat n).toNat = n := by
  rw [UInt8.toNat_ofNat']
  omega

theorem isTail_ofNat (v : Nat) : isTail (UInt8.ofNat (v % 64 + 128)) = true := by
  have htail : (UInt8.ofNat (v % 64 + 128)).toNat = v % 64 + 128 := toNat_ofNat (by omega)
  simp only [isTail, Bool.and_eq_true, decide_eq_true_eq, UInt8.le_iff_toNat_le,
    UInt8.lt_iff_toNat_lt, htail]
  exact ⟨Nat.le_add_left _ _, by have : (0xc0 : UInt8).toNat = 192 := rfl; omega⟩

section Leads

variable {v : Nat}

/-- The first byte of a character says how many follow, and within which bounds the next one is. -/
theorem demand_two (hmin : 128 ≤ v) (hmax : v < 2048) :
    demand (UInt8.ofNat (v / 64 % 32 + 192)) = some (1, 0x80, 0xbf, v / 64) := by
  have hb : (UInt8.ofNat (v / 64 % 32 + 192)).toNat = v / 64 + 192 := by
    rw [toNat_ofNat (by omega)]
    omega
  simp only [demand, UInt8.lt_iff_toNat_lt, hb]
  rw [if_neg (by simp; omega), if_pos (by simp; omega), Nat.add_sub_cancel]

theorem demand_three (hmin : 2048 ≤ v) (hmax : v < 65536) (hvalid : v < 0xd800 ∨ 0xdfff < v) :
    ∃ lo hi : UInt8, demand (UInt8.ofNat (v / 4096 % 16 + 224)) = some (2, lo, hi, v / 4096) ∧
      lo.toNat ≤ v / 64 % 64 + 128 ∧ v / 64 % 64 + 128 ≤ hi.toNat := by
  have hb : (UInt8.ofNat (v / 4096 % 16 + 224)).toNat = v / 4096 + 224 := by
    rw [toNat_ofNat (by omega)]
    omega
  simp only [demand, UInt8.lt_iff_toNat_lt, ← UInt8.toNat_inj, hb]
  rw [if_neg (by simp), if_neg (by simp)]
  by_cases hfirst : v < 4096
  · rw [if_pos (by simp; omega)]
    exact ⟨0xa0, 0xbf, by simp; omega, by simp; omega, by simp; omega⟩
  rw [if_neg (by simp; omega)]
  by_cases hgap : v / 4096 = 13
  · rw [if_pos (by simp [hgap])]
    exact ⟨0x80, 0x9f, by simp [hgap], by simp, by simp; omega⟩
  · rw [if_neg (by simp; omega), if_pos (by simp; omega)]
    exact ⟨0x80, 0xbf, by simp, by simp, by simp; omega⟩

theorem demand_four (hmin : 65536 ≤ v) (hmax : v < 0x110000) :
    ∃ lo hi : UInt8, demand (UInt8.ofNat (v / 262144 % 8 + 240)) = some (3, lo, hi, v / 262144) ∧
      lo.toNat ≤ v / 4096 % 64 + 128 ∧ v / 4096 % 64 + 128 ≤ hi.toNat := by
  have hb : (UInt8.ofNat (v / 262144 % 8 + 240)).toNat = v / 262144 + 240 := by
    rw [toNat_ofNat (by omega)]
    omega
  simp only [demand, UInt8.lt_iff_toNat_lt, ← UInt8.toNat_inj, hb]
  rw [if_neg (by simp), if_neg (by simp), if_neg (by simp), if_neg (by simp),
    if_neg (by simp)]
  by_cases hfirst : v < 262144
  · rw [if_pos (by simp; omega)]
    exact ⟨0x90, 0xbf, by simp; omega, by simp; omega, by simp; omega⟩
  rw [if_neg (by simp; omega)]
  by_cases hlast : v / 262144 = 4
  · rw [if_neg (by simp; omega), if_pos (by simp [hlast])]
    exact ⟨0x80, 0x8f, by simp [hlast], by simp, by simp; omega⟩
  · rw [if_pos (by simp; omega)]
    exact ⟨0x80, 0xbf, by simp, by simp, by simp; omega⟩

end Leads

theorem front_encodeChar (c : Char) (bs : Bytes) : ∃ b ts, String.utf8EncodeChar c = b :: ts ∧
    front b (ts ++ bs) = .char c (ts.length + 1) := by
  have hnat : Char.ofNat c.val.toNat = c := Char.ofNat_toNat c
  have hvalid : c.val.toNat < 0xd800 ∨ (0xdfff < c.val.toNat ∧ c.val.toNat < 0x110000) := c.valid
  unfold String.utf8EncodeChar
  generalize c.val.toNat = v at hnat hvalid
  dsimp only
  have htail : ∀ n, (UInt8.ofNat (n % 64 + 128)).toNat = n % 64 + 128 :=
    fun n => toNat_ofNat (by omega)
  by_cases hone : v ≤ 127
  · rw [if_pos hone]
    have hb : (UInt8.ofNat v).toNat = v := toNat_ofNat (by omega)
    refine ⟨_, [], rfl, ?_⟩
    rw [front, if_pos (by rw [UInt8.lt_iff_toNat_lt, hb]; exact Nat.lt_succ_of_le hone), hb, hnat]
    rfl
  rw [if_neg hone]
  by_cases htwo : v ≤ 2047
  · rw [if_pos htwo]
    refine ⟨_, [UInt8.ofNat (v % 64 + 128)], rfl, ?_⟩
    have hb : 0x80 ≤ (UInt8.ofNat (v / 64 % 32 + 192)).toNat := by
      rw [toNat_ofNat (by omega)]
      omega
    have hfront := front_of_demand (t := UInt8.ofNat (v % 64 + 128)) [] bs
      hb (demand_two (by omega) (by omega))
      (by rw [htail]; exact Nat.le_add_left _ _) (by rw [htail]; simp; omega) nofun
    have hsum : v / 64 * 64 + (v % 64 + 128 - 0x80) = v := by omega
    rw [scalar, List.foldl_cons, List.foldl_nil, htail, hsum, hnat] at hfront
    exact hfront
  rw [if_neg htwo]
  by_cases hthree : v ≤ 65535
  · rw [if_pos hthree]
    refine ⟨_, [UInt8.ofNat (v / 64 % 64 + 128), UInt8.ofNat (v % 64 + 128)], rfl, ?_⟩
    obtain ⟨lo, hi, hd, hlo, hhi⟩ := demand_three (v := v) (by omega) (by omega) (by omega)
    have hfront := front_of_demand (t := UInt8.ofNat (v / 64 % 64 + 128))
      [UInt8.ofNat (v % 64 + 128)] bs (by rw [toNat_ofNat (by omega)]; omega) hd
      (by rwa [htail]) (by rwa [htail]) (by simp only [List.forall_mem_cons, isTail_ofNat]; simp)
    have hsum : (v / 4096 * 64 + (v / 64 % 64 + 128 - 0x80)) * 64 + (v % 64 + 128 - 0x80) = v := by
      omega
    rw [scalar, List.foldl_cons, List.foldl_cons, List.foldl_nil, htail, htail, hsum, hnat] at hfront
    exact hfront
  rw [if_neg hthree]
  refine ⟨_, [UInt8.ofNat (v / 4096 % 64 + 128), UInt8.ofNat (v / 64 % 64 + 128),
    UInt8.ofNat (v % 64 + 128)], rfl, ?_⟩
  obtain ⟨lo, hi, hd, hlo, hhi⟩ := demand_four (v := v) (by omega) (by omega)
  have hfront := front_of_demand (t := UInt8.ofNat (v / 4096 % 64 + 128))
    [UInt8.ofNat (v / 64 % 64 + 128), UInt8.ofNat (v % 64 + 128)] bs
    (by rw [toNat_ofNat (by omega)]; omega) hd (by rwa [htail]) (by rwa [htail])
    (by simp only [List.forall_mem_cons, isTail_ofNat]; simp)
  have hsum : ((v / 262144 * 64 + (v / 4096 % 64 + 128 - 0x80)) * 64 +
      (v / 64 % 64 + 128 - 0x80)) * 64 + (v % 64 + 128 - 0x80) = v := by omega
  rw [scalar, List.foldl_cons, List.foldl_cons, List.foldl_cons, List.foldl_nil, htail, htail, htail,
    hsum, hnat] at hfront
  exact hfront

/-- What was encoded is decoded. -/
theorem decodeLossy_encode (s : String) : decodeLossy (encode s) = s := by
  have hskip : ∀ ts bs : Bytes, decodeLossyFrom ts.length (ts ++ bs) = decodeLossyFrom 0 bs := by
    intro ts bs
    induction ts with
    | nil => rfl
    | cons t ts ih => exact ih
  have hall : ∀ cs : List Char, decodeLossyFrom 0 (cs.flatMap String.utf8EncodeChar) = cs := by
    intro cs
    induction cs with
    | nil => rfl
    | cons c cs ih =>
      obtain ⟨b, ts, hchar, hfront⟩ := front_encodeChar c (cs.flatMap String.utf8EncodeChar)
      rw [List.flatMap_cons, hchar, List.cons_append, decodeLossyFrom, hfront]
      dsimp only
      rw [Nat.add_sub_cancel, hskip, ih]
  rw [decodeLossy, encode_eq, hall, String.ofList_toList]

theorem decode_encode (s : String) : decode (encode s) = .ok s := by
  have hskip : ∀ (ts bs : Bytes) (pos : Nat),
      decodeFrom pos ts.length (ts ++ bs) = decodeFrom (pos + ts.length) 0 bs := by
    intro ts bs
    induction ts with
    | nil => exact fun _ => rfl
    | cons t ts ih =>
      intro pos
      rw [List.length_cons, List.cons_append, decodeFrom, ih, Nat.add_assoc, Nat.add_comm 1]
  have hall : ∀ (cs : List Char) (pos : Nat),
      decodeFrom pos 0 (cs.flatMap String.utf8EncodeChar) = .ok cs := by
    intro cs
    induction cs with
    | nil => exact fun _ => rfl
    | cons c cs ih =>
      intro pos
      obtain ⟨b, ts, hchar, hfront⟩ := front_encodeChar c (cs.flatMap String.utf8EncodeChar)
      rw [List.flatMap_cons, hchar, List.cons_append, decodeFrom, hfront]
      dsimp only
      rw [Nat.add_sub_cancel, hskip, ih]
      rfl
  rw [decode, encode_eq, hall, Except.map, String.ofList_toList]

theorem strip_concat {p : Char → Bool} {c : Char} (hc : p c = true) (cs : List Char) :
    strip p (cs ++ [c]) = strip p cs := by
  rw [strip, strip, List.dropWhile_append]
  split
  · next hnil =>
    rw [List.isEmpty_iff.1 hnil, List.dropWhile_cons, if_pos hc]
    rfl
  · rw [dropEnd, dropEnd, List.reverse_append, List.reverse_singleton, List.singleton_append,
      List.dropWhile_cons, if_pos hc]

section Lines

theorem unify_eq {cs : List Char} (h : '\r' ∉ cs) : unify cs = cs := by
  induction cs with
  | nil => rfl
  | cons c cs ih =>
    rw [List.mem_cons, not_or] at h
    have hone : unify (c :: cs) = c :: unify cs := by
      rw [unify]
      · rintro _ rfl
        exact absurd rfl h.1
      · exact fun hc => absurd hc.symm h.1
    rw [hone, ih h.2]

theorem splitLines_cons {c : Char} (cs : List Char) (h : isLineEnd c = false) :
    splitLines (c :: cs) = onFirst c (splitLines cs) := by
  have hreturn : c ≠ '\r' := by
    rintro rfl
    exact absurd h (by decide)
  rw [splitLines, if_neg (by simp [h])]
  rintro _ rfl
  exact absurd rfl hreturn

theorem splitLines_line {line : List Char} (h : ∀ c ∈ line, isLineEnd c = false)
    (rest : List Char) : splitLines (line ++ '\n' :: rest) = line :: splitLines rest := by
  induction line with
  | nil =>
    rw [List.nil_append, splitLines, if_pos (by decide)]
    intro _ h _
    exact absurd h (by decide)
  | cons c line ih =>
    rw [List.cons_append, splitLines_cons _ (h c List.mem_cons_self),
      ih fun d hd => h d (List.mem_cons_of_mem c hd)]
    rfl

end Lines

section Words

variable {p : Char → Bool} {w : List Char}

theorem runs_ne_nil {cs : List Char} (h : startsRun p cs = true) : runs p cs ≠ [] := by
  cases cs with
  | nil => cases h
  | cons c cs =>
    have hc : p c = false := by simpa [startsRun] using h
    rw [runs, if_neg (by simp [hc])]
    split
    · cases runs p cs <;> simp
    · simp

/-- A separator ends a run, whatever stands around it. -/
theorem runs_append (as : List Char) {s : Char} (hs : p s = true) (bs : List Char) :
    runs p (as ++ s :: bs) = runs p as ++ runs p bs := by
  induction as with
  | nil =>
    have hsep : runs p (s :: bs) = runs p bs := by rw [runs, if_pos hs]
    exact hsep
  | cons a as ih =>
    rw [List.cons_append, runs, runs]
    by_cases ha : p a = true
    · rw [if_pos ha, if_pos ha, ih]
    rw [if_neg ha, if_neg ha]
    have hstart : startsRun p (as ++ s :: bs) = startsRun p as := by
      cases as with
      | nil => simp [startsRun, hs]
      | cons b as => rfl
    rw [hstart, ih]
    by_cases hon : startsRun p as = true
    · obtain ⟨r, rs, hrs⟩ := List.exists_cons_of_ne_nil (runs_ne_nil hon)
      rw [if_pos hon, if_pos hon, hrs]
      rfl
    · rw [if_neg hon, if_neg hon]
      rfl

theorem runs_word (hne : w ≠ []) (hw : ∀ c ∈ w, p c = false) : runs p w = [w] := by
  induction w with
  | nil => exact absurd rfl hne
  | cons c w ih =>
    rw [runs, if_neg (by simp [hw c List.mem_cons_self])]
    cases w with
    | nil => rfl
    | cons d w =>
      have hd : p d = false := hw d (by simp)
      rw [if_pos (by simp [startsRun, hd]), ih (by simp) fun x hx => hw x (List.mem_cons_of_mem c hx)]

theorem runs_blank {bs : List Char} (hb : ∀ c ∈ bs, p c = true) (rest : List Char) :
    runs p (bs ++ rest) = runs p rest := by
  induction bs with
  | nil => rfl
  | cons b bs ih =>
    rw [List.cons_append, runs, if_pos (hb b List.mem_cons_self),
      ih fun c hc => hb c (List.mem_cons_of_mem b hc)]

/-- Words with one separator between them. -/
theorem runs_intercalate {s : Char} (hs : p s = true) {ws : List (List Char)}
    (hws : ∀ w ∈ ws, w ≠ [] ∧ ∀ c ∈ w, p c = false) : runs p ([s].intercalate ws) = ws := by
  induction ws with
  | nil => rfl
  | cons w ws ih =>
    obtain ⟨hne, hw⟩ := hws w List.mem_cons_self
    cases ws with
    | nil => rw [List.intercalate_singleton, runs_word hne hw]
    | cons v ws =>
      rw [List.intercalate_cons_cons, List.append_assoc, List.singleton_append,
        runs_append w hs, runs_word hne hw, ih fun x hx => hws x (List.mem_cons_of_mem w hx)]
      rfl

end Words

theorem mem_intercalate {sep : String} {ss : List String} {c : Char}
    (h : c ∈ (sep.intercalate ss).toList) : c ∈ sep.toList ∨ ∃ s ∈ ss, c ∈ s.toList := by
  rw [String.toList_intercalate] at h
  induction ss with
  | nil => cases h
  | cons s ss ih =>
    cases ss with
    | nil => exact .inr ⟨s, List.mem_cons_self, by simpa using h⟩
    | cons t ss =>
      rw [List.map_cons, List.map_cons, List.intercalate_cons_cons] at h
      rcases List.mem_append.1 h with h | h
      · rcases List.mem_append.1 h with h | h
        · exact .inr ⟨s, List.mem_cons_self, h⟩
        · exact .inl h
      · exact (ih h).imp_right fun ⟨u, hu, hc⟩ => ⟨u, List.mem_cons_of_mem s hu, hc⟩

theorem head_intercalate {s : String} {c : Char} {cs : List Char} (h : s.toList = c :: cs)
    (sep : String) (ss : List String) : ∃ ds, (sep.intercalate (s :: ss)).toList = c :: ds := by
  rw [String.toList_intercalate, List.map_cons, h]
  cases ss with
  | nil => exact ⟨cs, List.intercalate_singleton⟩
  | cons t ss => exact ⟨_, List.intercalate_cons_cons⟩

/-- Some texts, each with the same one behind it. -/
def trailed (gap : String) (ss : List String) : String := String.join (ss.map (· ++ gap))

theorem toList_trailed_cons (gap s : String) (ss : List String) :
    (trailed gap (s :: ss)).toList = s.toList ++ (gap.toList ++ (trailed gap ss).toList) := by
  rw [trailed, trailed, String.toList_join, String.toList_join, List.map_cons, List.flatMap_cons,
    String.toList_append, List.append_assoc]

theorem mem_trailed {gap : String} {ss : List String} {c : Char}
    (h : c ∈ (trailed gap ss).toList) : c ∈ gap.toList ∨ ∃ s ∈ ss, c ∈ s.toList := by
  rw [trailed, String.toList_join, List.mem_flatMap] at h
  obtain ⟨x, hx, hc⟩ := h
  obtain ⟨s, hs, rfl⟩ := List.mem_map.1 hx
  rw [String.toList_append] at hc
  exact (List.mem_append.1 hc).symm.imp_right fun hc => ⟨s, hs, hc⟩

theorem splitLines_trailed {ls : List String}
    (h : ∀ l ∈ ls, ∀ c ∈ l.toList, isLineEnd c = false) :
    splitLines (trailed "\n" ls).toList = ls.map String.toList := by
  induction ls with
  | nil => rfl
  | cons l ls ih =>
    rw [toList_trailed_cons]
    exact (splitLines_line (h l List.mem_cons_self) _).trans
      (congrArg _ (ih fun x hx => h x (List.mem_cons_of_mem l hx)))

theorem words_trailed {gap : String} {ss : List String} (hgap : gap ≠ "")
    (hblank : ∀ c ∈ gap.toList, isBlank c = true)
    (h : ∀ s ∈ ss, s ≠ "" ∧ ∀ c ∈ s.toList, isBlank c = false) : words (trailed gap ss) = ss := by
  have hruns : runs isBlank (trailed gap ss).toList = ss.map String.toList := by
    obtain ⟨g, gs, hg⟩ := List.exists_cons_of_ne_nil
      (fun hnil => hgap (String.toList_eq_nil_iff.1 hnil) : gap.toList ≠ [])
    rw [hg] at hblank
    induction ss with
    | nil => rfl
    | cons s ss ih =>
      obtain ⟨hne, hs⟩ := h s List.mem_cons_self
      rw [toList_trailed_cons, hg, List.cons_append, runs_append _ (hblank g List.mem_cons_self),
        runs_blank fun c hc => hblank c (List.mem_cons_of_mem g hc),
        runs_word (fun hnil => hne (String.toList_eq_nil_iff.1 hnil)) hs,
        ih fun x hx => h x (List.mem_cons_of_mem s hx)]
      rfl
  rw [words, hruns, List.map_map]
  simp

end Text

end Hotpatch
