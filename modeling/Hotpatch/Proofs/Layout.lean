import Hotpatch.Layout
import Hotpatch.Proofs.Gaps.Module

/-! The sizes that are found agree with a full scan of the debug information. The scan reads definition
after definition, keeps the first of each name and stops with the last name it needs; what it has found by
then is what a reader of all definitions finds. -/

namespace Hotpatch

open Act

/-- An entry of debug information as its reader delivers it: the tag, and the name and the size where it
has them. -/
structure Die where
  tag : Nat
  name : Option Bytes
  size : Option Int
  deriving DecidableEq, Repr

namespace Die

/-- The name and the size in a definition of a structure. A declaration has no size. -/
def sized? (d : Die) : Option (String × Int) :=
  if d.tag = 0x13 then
    match d.name, d.size with
    | some n, some k => some (Text.decodeLossy n, k)
    | _, _ => none
  else none

/-- The size in the first definition of a name, all entries read. -/
def firstSize (dies : List Die) (name : String) : Option Int := (dies.filterMap sized?).lookup name

/-- What an entry stands for. Of an entry that is no structure only the tag matters. -/
structure IsTold (d : Die) (e : Dwarf.Entry) : Prop where
  tag : e.tag = d.tag
  name : d.tag = 0x13 → (e.attribute? 0x03).map (·.value) = d.name.map fun n => .text (some n)
  size : d.tag = 0x13 → (e.attribute? 0x0b).map (·.value) = d.size.map .number

/-- A definition that names a structure and its size. -/
def IsDefined (p : String × Int) (d : Definition) : Prop :=
  d.title = .ok (some p.1) ∧ d.size = .number p.2

theorem IsTold.defined {d : Die} {e : Dwarf.Entry} (hd : d.IsTold e) :
    Option.Rel IsDefined d.sized? (Definition.ofEntry? e) := by
  obtain ⟨tag, name, size⟩ := d
  have htag : e.tag = tag := hd.tag
  unfold sized? Definition.ofEntry?
  by_cases hs : tag = 0x13
  · have hname := hd.name hs
    have hsize := hd.size hs
    rw [if_pos hs, if_pos (htag.trans hs)]
    cases name with
    | none =>
      rw [Option.map_eq_none_iff.1 hname]
      exact .none
    | some n =>
      obtain ⟨a, ha, hn⟩ := Option.map_eq_some_iff.1 hname
      rw [ha]
      cases size with
      | none =>
        rw [Option.map_eq_none_iff.1 hsize]
        exact .none
      | some k =>
        obtain ⟨b, hb, hk⟩ := Option.map_eq_some_iff.1 hsize
        rw [hb]
        refine .some ⟨?_, hk⟩
        simp only [Definition.title, hn]
  · rw [if_neg hs, if_neg (htag ▸ hs)]
    exact .none

theorem defined_of_told {dies : List Die} {es : List Dwarf.Entry} (hd : List.Forall₂ IsTold dies es) :
    List.Forall₂ IsDefined (dies.filterMap sized?) (es.filterMap Definition.ofEntry?) :=
  List.rel_filterMap (R := IsTold) (fun _ _ hde => hde.defined) hd

end Die

namespace Layout

open Die

section Firsts

variable {α : Type} {names : List String} {found : List (String × α)} {n : String}

theorem isSome_lookup : (found.lookup n).isSome = true ↔ n ∈ found.map Prod.fst := by
  simp [List.lookup_isSome_iff]

/-- What was found until now: definitions of names that are asked for, one of each. -/
structure Gathered (names : List String) (found : List (String × α)) : Prop where
  nodup : (found.map Prod.fst).Nodup
  asked : found.map Prod.fst ⊆ names

namespace Gathered

theorem nil (names : List String) : Gathered names ([] : List (String × α)) :=
  ⟨List.nodup_nil, List.nil_subset _⟩

variable (hg : Gathered names found)
include hg

theorem snoc (hn : n ∈ names) (hnew : (found.lookup n).isNone = true) (a : α) :
    Gathered names (found ++ [(n, a)]) := by
  have hout : n ∉ found.map Prod.fst := by
    rw [← isSome_lookup, Option.isNone_iff_eq_none.1 hnew]
    nofun
  refine ⟨?_, ?_⟩
  · rw [List.map_append]
    exact hg.nodup.append (List.nodup_singleton n) (List.disjoint_singleton.2 hout)
  · rw [List.map_append]
    exact List.append_subset.2 ⟨hg.asked, by simpa using hn⟩

theorem length_le : found.length ≤ names.length := by
  simpa using (hg.nodup.subperm hg.asked).length_le

/-- With as many definitions as names every name has one. -/
theorem full (hlength : found.length = names.length) : ∀ n ∈ names, (found.lookup n).isSome = true := by
  have hperm : (found.map Prod.fst).Perm names :=
    (hg.nodup.subperm hg.asked).perm_of_length_le (by simp [hlength])
  intro n hn
  exact isSome_lookup.2 (hperm.mem_iff.2 hn)

end Gathered

/-- With fewer definitions than names some name has none. -/
theorem not_full (hnames : names.Nodup) (hlength : found.length < names.length) :
    ¬ ∀ n ∈ names, (found.lookup n).isSome = true := by
  intro hall
  have hsub : names ⊆ found.map Prod.fst := fun n hn => isSome_lookup.1 (hall n hn)
  have := (hnames.subperm hsub).length_le
  simp only [List.length_map] at this
  omega

end Firsts

variable {h : Host} {t : Site} {names : List String}

/-- The scan finds what a reader of all definitions finds: the induction is on the definitions, and the names
that have one already stay as they are. A fault behind the definitions does no harm where they suffice. -/
theorem firsts_scanned (hnames : names.Nodup) {fault : Option ImageFault} {ps : List (String × Int)}
    {ds : List Definition} (hds : List.Forall₂ IsDefined ps ds) {found : List (String × Dwarf.Value)}
    (hg : Gathered names found) (hopen : found.length < names.length)
    (hfault : fault = none ∨
      ∀ n ∈ names, ((found.lookup n).or ((ps.lookup n).map .number)).isSome = true) :
    ∃ all, firsts names fault ds found = .ok all ∧
      ∀ n ∈ names, all.lookup n = (found.lookup n).or ((ps.lookup n).map .number) := by
  induction hds generalizing found with
  | nil =>
    have hnone : fault = none := by
      refine hfault.resolve_right fun hall => not_full hnames hopen fun n hn => ?_
      simpa using hall n hn
    subst hnone
    exact ⟨found, rfl, by simp⟩
  | @cons p d ps ds hd hds ih =>
    obtain ⟨m, k⟩ := p
    have htitle : d.title = .ok (some m) := hd.1
    have hsize : d.size = .number k := hd.2
    unfold firsts
    simp only [htitle, bind, Except.bind]
    by_cases hm : (names.contains m && (found.lookup m).isNone) = true
    · rw [if_pos hm]
      obtain ⟨hasked, hnew⟩ := Bool.and_eq_true_iff.1 hm
      have hg' := hg.snoc (List.contains_iff_mem.1 hasked) hnew d.size
      -- the definition goes to its own name; what is told of the others doesn't change
      have hsame : ∀ n, ((found ++ [(m, d.size)]).lookup n).or ((ps.lookup n).map .number) =
          (found.lookup n).or ((((m, k) :: ps).lookup n).map .number) := by
        intro n
        rw [List.lookup_append, List.lookup_cons, List.lookup_cons, hsize, Option.or_assoc]
        cases n == m <;> rfl
      by_cases hfull : (found ++ [(m, d.size)]).length = names.length
      · rw [if_pos hfull]
        refine ⟨_, rfl, fun n hn => ?_⟩
        rw [← hsame, Option.or_of_isSome (hg'.full hfull n hn)]
      · rw [if_neg hfull]
        have hopen' := lt_of_le_of_ne hg'.length_le hfull
        simp only [← hsame] at hfault ⊢
        exact ih hg' hopen' hfault
    · rw [if_neg hm]
      -- a name that isn't asked for, or one that has its definition
      have hsame : ∀ n ∈ names, (found.lookup n).or ((ps.lookup n).map .number) =
          (found.lookup n).or ((((m, k) :: ps).lookup n).map .number) := by
        intro n hn
        rw [List.lookup_cons]
        cases hnm : n == m with
        | false => rfl
        | true =>
          rw [beq_iff_eq] at hnm
          subst hnm
          have hhas : (found.lookup n).isSome = true := by
            simpa [hn] using hm
          rw [Option.or_of_isSome hhas, Option.or_of_isSome hhas]
      obtain ⟨all, hall, hlookup⟩ := ih hg hopen (hfault.imp_right fun hf n hn => by
        rw [hsame n hn]
        exact hf n hn)
      exact ⟨all, hall, fun n hn => (hlookup n hn).trans (hsame n hn)⟩

/-- A size that is noted: the first of its name, above zero and short enough for a message. -/
structure IsUsable (dies : List Die) (n : String) (k : Int) : Prop where
  first : firstSize dies n = some k
  positive : 0 < k
  short : (toString k).length ≤ longest

/-- The first definition gives no size above zero, or there is none. -/
def IsMissing (dies : List Die) (n : String) : Prop := ∀ k, firstSize dies n = some k → k ≤ 0

/-- The first definition gives a size that a message can't tell. -/
def IsOverlong (dies : List Die) (n : String) : Prop :=
  ∃ k, firstSize dies n = some k ∧ 0 < k ∧ longest < (toString k).length

def tooLong : Fault := .invalid ("Exceeds the limit (4300 digits) for integer string conversion; " ++
  "use sys.set_int_max_str_digits() to increase the limit")

/-- The first name without a usable size is told. -/
def IsRefused (dies : List Die) (names : List String) (e : Fault) : Prop :=
  ∃ before n after, names = before ++ n :: after ∧ (∀ m ∈ before, ∃ k, IsUsable dies m k) ∧
    (IsMissing dies n ∧ e = .failure (.layout n) ∨ IsOverlong dies n ∧ e = tooLong)

def IsNoted (dies : List Die) (n : String) (p : String × Json) : Prop :=
  ∃ k, IsUsable dies n k ∧ p = (n, .int k)

/-- A size in the variable of its structure. -/
def IsPassed (dies : List Die) (n : String) (v : String × String) : Prop :=
  ∃ k, IsUsable dies n k ∧ variableNames.lookup n = some v.1 ∧ v.2 = toString k

section Settle

variable {dies : List Die} {n : String} {e : Fault}

theorem IsRefused.here (he : IsMissing dies n ∧ e = .failure (.layout n) ∨
    IsOverlong dies n ∧ e = tooLong) (ns : List String) : IsRefused dies (n :: ns) e :=
  ⟨[], n, ns, rfl, by simp, he⟩

theorem IsRefused.later {k : Int} (hk : IsUsable dies n k) (he : IsRefused dies names e) :
    IsRefused dies (n :: names) e := by
  obtain ⟨before, m, after, rfl, hbefore, hm⟩ := he
  refine ⟨n :: before, m, after, rfl, ?_, hm⟩
  simp only [List.mem_cons, forall_eq_or_imp]
  exact ⟨⟨k, hk⟩, hbefore⟩

/-- Where a name is refused, not all of them are usable. -/
theorem IsRefused.not_usable (he : IsRefused dies names e) :
    ¬ ∀ n ∈ names, ∃ k, IsUsable dies n k := by
  obtain ⟨before, n, after, rfl, -, hn⟩ := he
  intro hall
  obtain ⟨k, hk⟩ := hall n (by simp)
  rcases hn with ⟨hmissing, -⟩ | ⟨⟨k', hk', -, hlong⟩, -⟩
  · have := hmissing k hk.first
    have := hk.positive
    omega
  · obtain rfl : k = k' := Option.some.inj (hk.first.symm.trans hk')
    have := hk.short
    omega

theorem usable_missing (hn : IsMissing dies n) :
    usable n ((firstSize dies n).map .number) = .error (.failure (.layout n)) := by
  cases hk : firstSize dies n with
  | none => rfl
  | some k =>
    have := hn k hk
    simp only [Option.map_some, usable]
    rw [if_neg (by omega)]

theorem usable_positive {k : Int} (hk : firstSize dies n = some k) (hpos : 0 < k) :
    usable n ((firstSize dies n).map .number) = .ok (.int k) := by
  simp only [hk, Option.map_some, usable]
  rw [if_pos hpos]

/-- A size is usable, missing or overlong. -/
theorem usable_cases (dies : List Die) (n : String) :
    (∃ k, IsUsable dies n k) ∨ IsMissing dies n ∨ IsOverlong dies n := by
  by_cases hmissing : IsMissing dies n
  · exact .inr (.inl hmissing)
  · unfold IsMissing at hmissing
    push Not at hmissing
    obtain ⟨k, hk, hpos⟩ := hmissing
    by_cases hshort : (toString k).length ≤ longest
    · exact .inl ⟨k, hk, hpos, hshort⟩
    · exact .inr (.inr ⟨k, hk, hpos, by omega⟩)

theorem debug_apply (h : Host) (t : Site) (m : String) : ∃ t', Log.debug source m h t = (.ok (), t') :=
  ⟨_, rfl⟩

theorem settle_scanned {found : List (String × Dwarf.Value)}
    (hfound : ∀ n ∈ names, found.lookup n = (firstSize dies n).map .number) (t : Site) :
    (∃ sizes u, settle found names h t = (.ok sizes, u) ∧ List.Forall₂ (IsNoted dies) names sizes) ∨
      ∃ e u, settle found names h t = (.error e, u) ∧ IsRefused dies names e := by
  induction names generalizing t with
  | nil => exact .inl ⟨[], t, rfl, .nil⟩
  | cons n ns ih =>
    have hn := hfound n List.mem_cons_self
    unfold settle
    rw [hn]
    rcases usable_cases dies n with ⟨k, hk⟩ | hmissing | ⟨k, hk, hpos, hlong⟩
    · have hsize := usable_positive hk.first hk.positive
      have htext : sizeText (.int k) = .ok (toString k) := if_neg (by have := hk.short; exact not_lt.2 this)
      rw [bind_ok (by rw [ofExcept_apply, hsize]), bind_ok (by rw [ofExcept_apply, htext])]
      obtain ⟨t', hlog⟩ := debug_apply h t ("sizeof(struct " ++ n ++ ") = " ++ toString k)
      rw [bind_ok hlog]
      rcases ih (fun m hm => hfound m (List.mem_cons_of_mem _ hm)) t' with
        ⟨sizes, u, hrest, hnoted⟩ | ⟨e, u, hrest, he⟩
      · exact .inl ⟨_, u, by rw [bind_ok hrest]; rfl, .cons ⟨k, hk, rfl⟩ hnoted⟩
      · exact .inr ⟨e, u, bind_error hrest, he.later hk⟩
    · have herror := usable_missing hmissing
      exact .inr ⟨_, t, bind_error (by rw [ofExcept_apply, herror]), .here (.inl ⟨hmissing, rfl⟩) ns⟩
    · have hsize := usable_positive hk hpos
      have htext : sizeText (.int k) = .error tooLong := if_pos hlong
      refine .inr ⟨tooLong, t, ?_, .here (.inr ⟨⟨k, hk, hpos, hlong⟩, rfl⟩) ns⟩
      rw [bind_ok (by rw [ofExcept_apply, hsize]), bind_error (by rw [ofExcept_apply, htext])]

end Settle

section Environment

variable {dies : List Die}

/-- The sizes go to the variables of their structures. -/
theorem environment_noted {sizes : List (String × Json)}
    (hsizes : List.Forall₂ (IsNoted dies) names sizes)
    (hnames : ∀ n ∈ names, (variableNames.lookup n).isSome = true) :
    ∃ vars, environment ⟨sizes⟩ = .ok vars ∧ List.Forall₂ (IsPassed dies) names vars := by
  induction hsizes with
  | nil => exact ⟨[], rfl, .nil⟩
  | @cons n p ns sizes hp hsizes ih =>
    obtain ⟨k, hk, rfl⟩ := hp
    obtain ⟨v, hv⟩ := Option.isSome_iff_exists.1 (hnames n List.mem_cons_self)
    obtain ⟨vars, hvars, hpassed⟩ := ih fun m hm => hnames m (List.mem_cons_of_mem _ hm)
    refine ⟨(v, toString k) :: vars, ?_, .cons ⟨k, hk, hv, rfl⟩ hpassed⟩
    unfold environment at hvars ⊢
    rw [List.mapM_cons, hvars]
    simp only [hv]
    rfl

theorem required_nodup (arch : String) (paravirt : Bool) : (required arch paravirt).Nodup := by
  unfold required
  split
  · decide
  · cases paravirt <;> decide

theorem required_pos (arch : String) (paravirt : Bool) : 0 < (required arch paravirt).length := by
  unfold required
  split <;> simp

/-- No two structures share a variable. -/
theorem variables_distinct (arch : String) (paravirt : Bool) :
    ((required arch paravirt).map fun n => variableNames.lookup n).Nodup := by
  unfold required
  split
  · decide
  · cases paravirt <;> decide

theorem passed_distinct {vars : List (String × String)}
    (hvars : List.Forall₂ (IsPassed dies) names vars)
    (hnames : (names.map fun n => variableNames.lookup n).Nodup) : (vars.map Prod.fst).Nodup := by
  have hsame : (names.map fun n => variableNames.lookup n) = (vars.map Prod.fst).map some := by
    clear hnames
    induction hvars with
    | nil => rfl
    | cons hv _ ih =>
      obtain ⟨k, -, hlookup, -⟩ := hv
      simp only [List.map_cons, ih, hlookup]
  rw [hsame] at hnames
  exact hnames.of_map _

end Environment

/-- How a probe ends for entries of debug information and the names it needs sizes of. -/
structure Agrees (dies : List Die) (names : List String) (r : Except Fault Layout) : Prop where
  returns : (∃ l, r = .ok l) ↔ ∀ n ∈ names, ∃ k, IsUsable dies n k
  sizes : ∀ l, r = .ok l → List.Forall₂ (IsNoted dies) names l.sizes
  environment : ∀ l, r = .ok l → ∃ vars, l.environment = .ok vars ∧ (vars.map Prod.fst).Nodup ∧
    List.Forall₂ (IsPassed dies) names vars
  refuses : ∀ e, r = .error e → IsRefused dies names e

theorem usable_of_noted {dies : List Die} {sizes : List (String × Json)}
    (hsizes : List.Forall₂ (IsNoted dies) names sizes) : ∀ n ∈ names, ∃ k, IsUsable dies n k := by
  induction hsizes with
  | nil => simp
  | cons hp _ ih =>
    obtain ⟨k, hk, -⟩ := hp
    simp only [List.mem_cons, forall_eq_or_imp]
    exact ⟨⟨k, hk⟩, ih⟩

theorem Agrees.of_noted {dies : List Die} {sizes : List (String × Json)}
    (hsizes : List.Forall₂ (IsNoted dies) names sizes)
    (hknown : ∀ n ∈ names, (variableNames.lookup n).isSome = true)
    (hdistinct : (names.map fun n => variableNames.lookup n).Nodup) :
    Agrees dies names (.ok ⟨sizes⟩) := by
  obtain ⟨vars, hvars, hpassed⟩ := environment_noted hsizes hknown
  refine ⟨⟨fun _ n hn => ?_, fun _ => ⟨_, rfl⟩⟩, ?_, ?_, nofun⟩
  · exact usable_of_noted hsizes n hn
  · rintro l ⟨⟩
    exact hsizes
  · rintro l ⟨⟩
    exact ⟨vars, hvars, passed_distinct hpassed hdistinct, hpassed⟩

theorem Agrees.of_refused {dies : List Die} {e : Fault} (he : IsRefused dies names e) :
    Agrees dies names (.error e) := by
  refine ⟨⟨nofun, fun hall => absurd hall he.not_usable⟩, nofun, nofun, ?_⟩
  rintro e' ⟨⟩
  exact he

/-- The entries of an image that has debug information, and what kept from reading more. -/
def entriesIn (bs : Bytes) : Except ImageFault (Option (List Dwarf.Entry × Option ImageFault)) := do
  let i ← Elf.Image.ofBytes bs.toArray
  if ← Dwarf.Info.isIn i then return some (← Dwarf.Info.ofImage i).entries else return none

theorem look_entriesIn {bs : Bytes} {es : List Dwarf.Entry} {fault : Option ImageFault}
    (hbs : entriesIn bs = .ok (some (es, fault))) :
    Elf.Image.ofBytes bs.toArray >>= look = .ok (some (es.filterMap Definition.ofEntry?, fault)) := by
  unfold entriesIn at hbs
  obtain ⟨i, hi, hbs⟩ := exists_of_bind hbs
  obtain ⟨b, hb, hbs⟩ := exists_of_bind hbs
  rw [hi]
  simp only [bind, Except.bind, look, hb]
  cases b with
  | false => cases hbs
  | true =>
    obtain ⟨info, hinfo, hbs⟩ := exists_of_bind hbs
    obtain ⟨rfl, rfl⟩ := Prod.mk.inj (Option.some.inj (Except.ok.inj hbs))
    rw [if_pos rfl]
    simp only [Definition.ofImage, hinfo, Except.map]
    rfl

/-- The image a path leads to has these entries, and this fault behind them. -/
def Delivers (h : Host) (path : String) (dies : List Die) (fault : Option ImageFault) (d : Disk) : Prop :=
  ∃ bs es, d.read h.cwd path = .ok bs ∧ entriesIn bs = .ok (some (es, fault)) ∧
    List.Forall₂ IsTold dies es

section Probe

variable {path : String} {dies : List Die} {fault : Option ImageFault} {d : Disk}

theorem Delivers.append (hd : Delivers h path dies fault d) {p : Place} (hp : Place.of h.cwd path ≠ p)
    (serial : Nat) (c : Bytes) : Delivers h path dies fault (d.append p serial c) := by
  obtain ⟨bs, es, hread, hes⟩ := hd
  obtain ⟨f, hf, rfl⟩ := Disk.read_ok hread
  refine ⟨f.content, es, ?_, hes⟩
  rw [Disk.read, Disk.open?, Disk.find_append_ne hf hp serial c]
  rfl

theorem Delivers.debug (hd : Delivers h path dies fault t.disk)
    (hlog : ∀ n, .file (Place.of h.cwd path) n ∉ t.sinks) (m : String) :
    ∃ t', Log.debug source m h t = (.ok (), t') ∧ Delivers h path dies fault t'.disk := by
  have hkept := Log.emit_keeps (h := h) (r := ⟨source, .debug, m⟩) (J := Delivers h path dies fault)
    (fun _ p n c hp hJ => hJ.append (fun heq => hlog n (heq ▸ hp)) n c) hd
  exact ⟨_, rfl, hkept.1⟩

theorem scan_delivered (hd : Delivers h path dies fault t.disk) (names : List String) :
    ∃ ds, List.Forall₂ IsDefined (dies.filterMap sized?) ds ∧
      scan path names h t = (firsts names fault ds [], t) := by
  obtain ⟨bs, es, hread, hes, htold⟩ := hd
  have hlook := Elf.inspect_read hread look
  rw [look_entriesIn hes] at hlook
  refine ⟨_, defined_of_told htold, ?_⟩
  unfold scan
  rw [bind_ok hlook]
  exact ofExcept_apply h t _

/-- A probe agrees with a full scan of the entries. Entries behind the last one that is needed, and a fault
behind those that suffice, change nothing. -/
theorem probe_agrees {arch : String} {paravirt : Bool} (hd : Delivers h path dies fault t.disk)
    (hlog : ∀ n, .file (Place.of h.cwd path) n ∉ t.sinks)
    (hfault : fault = none ∨ ∀ n ∈ required arch paravirt, (firstSize dies n).isSome = true) :
    Agrees dies (required arch paravirt) (probe path arch paravirt h t).1 := by
  obtain ⟨t', hemit, hkept⟩ := hd.debug hlog ("Looking up special section structs " ++
    Text.quotedList (required arch paravirt) ++ " in " ++ path)
  obtain ⟨ds, hds, hscan⟩ := scan_delivered hkept (required arch paravirt)
  have hsuffice : fault = none ∨ ∀ n ∈ required arch paravirt,
      ((([] : List (String × Dwarf.Value)).lookup n).or ((firstSize dies n).map .number)).isSome = true := by
    simpa only [List.lookup_nil, Option.none_or, Option.isSome_map] using hfault
  obtain ⟨found, hfirsts, hfound⟩ := firsts_scanned (required_nodup arch paravirt) hds (.nil _)
    (required_pos arch paravirt) hsuffice
  rw [hfirsts] at hscan
  have hprobe : probe path arch paravirt h t =
      (settle found (required arch paravirt) >>= fun s => pure ⟨s⟩ : Act Layout) h t' := by
    unfold probe
    rw [bind_ok hemit, bind_ok (attempt_of hscan)]
  have hfirst : ∀ n ∈ required arch paravirt, found.lookup n = (firstSize dies n).map .number := hfound
  rcases settle_scanned (h := h) hfirst t' with
    ⟨sizes, u, hsettle, hnoted⟩ | ⟨e, u, hsettle, he⟩
  · rw [hprobe, bind_ok hsettle]
    exact .of_noted hnoted (required_known arch paravirt) (variables_distinct arch paravirt)
  · rw [hprobe, bind_error hsettle]
    exact .of_refused he

end Probe

section Sample

/-- A text as it stands in an image. -/
def sampleText (s : String) : Bytes := Text.encode s ++ [0]

/-- One unit. Its second definition of a name doesn't agree with the first. -/
def sampleUnit : Bytes :=
  [70, 0, 0, 0, 4, 0, 0, 0, 0, 0, 8, 1, 2] ++ sampleText "bug_entry" ++ [12, 2] ++
    sampleText "bug_entry" ++ [16, 2] ++ sampleText "fixup_entry" ++ [8, 2] ++
    sampleText "exception_table_entry" ++ [12]

/-- Declarations of units without attributes and of structures with names and sizes. -/
def sampleTable : Bytes := [1, 0x11, 1, 0, 0, 2, 0x13, 0, 0x03, 0x08, 0x0b, 0x0b, 0, 0, 0]

def sampleNames : Bytes := sampleText ".debug_info" ++ sampleText ".debug_abbrev" ++ sampleText ".names"

def sampleHeader (name kind offset size : UInt8) : Bytes :=
  [name, 0, 0, 0, kind, 0, 0, 0, 0, 0, 0, 0, 0, 0, 0, 0, offset, 0, 0, 0, size, 0, 0, 0,
    0, 0, 0, 0, 0, 0, 0, 0, 1, 0, 0, 0, 0, 0, 0, 0]

def sampleImage : Bytes :=
  [0x7f, 0x45, 0x4c, 0x46, 1, 1, 1, 0, 0, 0, 0, 0, 0, 0, 0, 0, 2, 0, 20, 0, 1, 0, 0, 0, 0, 0, 0, 0,
    0, 0, 0, 0, 174, 0, 0, 0, 0, 0, 0, 0, 52, 0, 0, 0, 0, 0, 40, 0, 3, 0, 2, 0] ++
    sampleUnit ++ sampleTable ++ sampleNames ++
    sampleHeader 0 1 52 74 ++ sampleHeader 12 1 126 15 ++ sampleHeader 26 3 141 33

def sampleDies : List Die := [⟨0x11, none, none⟩, ⟨0x13, some (Text.encode "bug_entry"), some 12⟩,
  ⟨0x13, some (Text.encode "bug_entry"), some 16⟩, ⟨0x13, some (Text.encode "fixup_entry"), some 8⟩,
  ⟨0x13, some (Text.encode "exception_table_entry"), some 12⟩]

/-- An entry with its attributes as the image has them. -/
def sampleEntry (d : Die) : Dwarf.Entry :=
  ⟨d.tag, (d.name.map fun n => ⟨0x03, 0x08, .text (some n)⟩).toList ++
    (d.size.map fun k => ⟨0x0b, 0x0b, .number k⟩).toList⟩

theorem told_sampleEntry (d : Die) : d.IsTold (sampleEntry d) := by
  obtain ⟨tag, name, size⟩ := d
  refine ⟨rfl, fun _ => ?_, fun _ => ?_⟩ <;> cases name <;> cases size <;> rfl

theorem sample_entries : entriesIn sampleImage = .ok (some (sampleDies.map sampleEntry, none)) :=
  ok_of_toOption (by decide +kernel)

def sampleHost : Host where
  cwd := []
  home := "/root"
  machine := "ppc64le"
  cpus := none
  environment := []
  hasTool _ := true
  react _ _ d := ⟨d, .error .notFound⟩

def sampleSite : Site where
  disk := ⟨[(["vmlinux"], .file ⟨sampleImage, 0, 0⟩)], 1⟩
  events := []
  records := []
  sinks := []
  console := []
  series := ⟨"/src", [], .pending, 0⟩

theorem sample_delivers : Delivers sampleHost "vmlinux" sampleDies none sampleSite.disk := by
  refine ⟨sampleImage, sampleDies.map sampleEntry, ?_, ?_, ?_⟩
  · have hfind : sampleSite.disk.find sampleHost.cwd "vmlinux" =
        .ok (["vmlinux"], .file ⟨sampleImage, 0, 0⟩) := by
      rfl
    rw [Disk.read, Disk.open?, hfind]
    rfl
  · exact sample_entries
  · rw [List.forall₂_map_right_iff, List.forall₂_same]
    exact fun d _ => told_sampleEntry d

/-- The first sizes are found, and the environment tells them. -/
theorem probe_agrees_sample :
    Delivers sampleHost "vmlinux" sampleDies none sampleSite.disk ∧
    Agrees sampleDies ["fixup_entry", "bug_entry", "exception_table_entry"]
      (probe "vmlinux" "ppc64le" true sampleHost sampleSite).1 ∧
    (∃ l, (probe "vmlinux" "ppc64le" true sampleHost sampleSite).1 = .ok l) := by
  have hagrees : Agrees sampleDies (required "ppc64le" true)
      (probe "vmlinux" "ppc64le" true sampleHost sampleSite).1 :=
    probe_agrees sample_delivers (fun _ => List.not_mem_nil) (.inl rfl)
  have hnames : required "ppc64le" true = ["fixup_entry", "bug_entry", "exception_table_entry"] := by
    decide +kernel
  rw [hnames] at hagrees
  refine ⟨sample_delivers, hagrees, hagrees.returns.2 ?_⟩
  simp only [List.mem_cons, List.not_mem_nil, or_false, forall_eq_or_imp, forall_eq]
  exact ⟨⟨8, by decide +kernel, by decide, by decide +kernel⟩,
    ⟨12, by decide +kernel, by decide, by decide +kernel⟩,
    ⟨12, by decide +kernel, by decide, by decide +kernel⟩⟩

end Sample

end Layout

end Hotpatch
