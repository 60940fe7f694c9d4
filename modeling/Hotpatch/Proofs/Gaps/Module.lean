import Hotpatch.Proofs.Build.Snapshot
import Hotpatch.Proofs.Gaps.Builds
import Hotpatch.Proofs.Module.Assembled

/-! The gaps in comparing objects and making a module of them. A survey tells the first fault it meets in
its value; the module is made after that. -/

namespace Hotpatch

open Act Fault

variable {h : Host}

namespace Layout

/-- The sizes that were settled are those of the names asked for. -/
theorem settle_names {found : List (String × Dwarf.Value)} : ∀ {names : List String} {t u : Site}
    {sizes : List (String × Json)}, settle found names h t = (.ok sizes, u) →
      sizes.map Prod.fst = names
  | [], _, _, _, hr => by
    obtain ⟨rfl, -⟩ := pure_of_ok hr
    rfl
  | n :: ns, t, u, sizes, hr => by
    obtain ⟨size, t₁, -, hr⟩ := bind_of_ok hr
    obtain ⟨text, t₂, -, hr⟩ := bind_of_ok hr
    obtain ⟨⟨⟩, t₃, -, hr⟩ := bind_of_ok hr
    obtain ⟨rest, t₄, hrest, hr⟩ := bind_of_ok hr
    obtain ⟨rfl, -⟩ := pure_of_ok hr
    rw [List.map_cons, settle_names hrest]

theorem required_known (arch : String) (paravirt : Bool) :
    ∀ n ∈ required arch paravirt, (variableNames.lookup n).isSome = true := by
  rw [required]
  split
  · decide
  · cases paravirt <;> decide

/-- Every size that a kernel image was asked for has its variable. -/
theorem environment_ok {image arch : String} {paravirt : Bool} {t u : Site} {l : Layout}
    (hr : probe image arch paravirt h t = (.ok l, u)) : ∃ vs, l.environment = .ok vs := by
  have known : ∀ p ∈ l.sizes, (variableNames.lookup p.1).isSome = true := by
    rw [probe] at hr
    obtain ⟨⟨⟩, t₁, -, hr⟩ := bind_of_ok hr
    obtain ⟨r, t₂, -, hr⟩ := bind_of_ok hr
    cases r with
    | ok found =>
      obtain ⟨sizes, t₃, hsizes, hr⟩ := bind_of_ok hr
      obtain ⟨rfl, -⟩ := pure_of_ok hr
      intro p hp
      refine required_known arch paravirt p.1 ?_
      rw [← settle_names hsizes]
      exact List.mem_map_of_mem hp
    | error e =>
      cases hu : Elf.unreadable? e with
      | none =>
        simp only [hu] at hr
        cases hr
      | some cause =>
        simp only [hu] at hr
        cases hr
  refine ⟨l.sizes.map fun p => ((variableNames.lookup p.1).getD "", p.2.shown), ?_⟩
  refine mapM_ok fun p hp => ?_
  obtain ⟨v, hv⟩ := Option.isSome_iff_exists.1 (known p hp)
  rw [hv]
  rfl

end Layout

/-- Values of which the arguments of the tool that compares can be made. -/
structure Differ.IsFit (t : Differ) : Prop where
  tool : ∃ tool, t.tool = .str tool
  layout : ∃ vs, t.layout.environment = .ok vs

/-- Values of which the arguments of the tools that make a module can be made. -/
structure Assembler.IsFit (a : Assembler) : Prop where
  moduleTool : ∃ tool, a.moduleTool = .str tool
  linkFlags : ∃ flags : List String, a.linkFlags = flags.map .str

namespace Aggregate

variable {a : Aggregate}

structure IsFit (a : Aggregate) : Prop where
  differ : a.differ.IsFit
  assembler : a.assembler.IsFit

/-- The directories that are made for the differences and for the module. -/
inductive Houses (a : Aggregate) : String → Prop
  | output : a.Houses (clean a.output)
  | object (path : String) : a.Houses (parent (under a.output path))
  | linked : a.Houses (parent a.linked)
  | module : a.Houses (parent a.moduleAt)

/-- The gaps in the making of a module. A search tells its fault in its value. -/
inductive Gap (a : Aggregate) (e : Fault) : {β : Type} → Act β → Except Fault β → Prop
  | copy {β : Type} {b : Act β} {r : Except Fault β} : Staging.Gap e b r → a.Gap e b r
  | directory {path : String} : a.Houses path → a.Gap e (Act.makeDirs path) (.error e)
  | tool (argv : List String) (env : List (String × String)) :
    a.Gap e (Tool.start ⟨argv, none, .streamed env⟩) (.error e)
  | present (path : String) : a.Gap e (Act.present path) (.error e)
  | search (r r' : Kbuild.Resolver) (object : String) :
    a.Gap e (Kbuild.Search.perform r (Kbuild.Search.owner object)) (.ok (.error e, r'))
  /-- The parents of an object are looked up by its path, but noted by the normal form of it. -/
  | parents (r : Kbuild.Resolver) {o : ChangedObject} (v : Verdict) : normalize o.path ≠ o.path →
    a.Gap e (refine r o v) (.error e)
  | linked : a.Gap e (Elf.isRelocatableObject a.linked) (.error e)
  | digest : a.Gap e (Staging.digest a.linked "md5") (.error e)
  | checksum (content : Bytes) :
    a.Gap e (Act.change (·.write · (under (parent a.linked) "checksum.tmp") content)) (.error e)

variable {o : ChangedObject}

end Aggregate

end Hotpatch
