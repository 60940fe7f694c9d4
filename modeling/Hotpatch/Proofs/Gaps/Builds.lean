import Hotpatch.Proofs.Gaps.Prepared

/-! The gaps in applying patches and building: tools that aren't started, and files and directories that
the system refuses while they are asked for, moved or made. What a patch, a build or a copy of an object
fails with is told. -/

namespace Hotpatch

open Act Fault

variable {h : Host}

namespace Series

/-- What becomes of git where it fails without an output of its own. -/
def silence (o : Outcome) : Option Fault :=
  if o.status ≠ 0 ∧ o.output = none then some (.lacking "NoneType" "strip") else none

/-- The gaps of a patch series. -/
inductive Gap (e : Fault) : {β : Type} → Act β → Except Fault β → Prop
  | tool (argv : List String) (tree : String) :
    Gap e (Tool.start ⟨argv, some tree, .captured⟩) (.error e)
  | file (path : String) : Gap e (Act.isFile path) (.error e)
  | repository (tree : String) : Gap e (Act.present (under tree ".git")) (.error e)
  | silent {tree : String} {o : Outcome} : silence o = some e →
    Gap e (Tool.start ⟨["git", "update-index", "-q", "--refresh"], some tree, .captured⟩) (.ok o)

end Series

namespace Staging

/-- Copies tell what the file system refuses; what is left are paths that can't be any. -/
inductive Gap (e : Fault) : {β : Type} → Act β → Except Fault β → Prop
  | stage (source path target : String) : (∀ d, e ≠ .disk d) →
    Gap e (stage source path target) (.error e)

end Staging

theorem Json.itemsIfTrue_ofTexts (ss : List String) :
    (Json.ofTexts ss).itemsIfTrue = .ok (ss.map .str) := by
  cases ss <;> rfl

namespace Differential

variable {b : Differential}

/-- The gaps of the builds. -/
inductive Gap (b : Differential) (e : Fault) : {β : Type} → Act β → Except Fault β → Prop
  | series {β : Type} {a : Act β} {r : Except Fault β} : Series.Gap e a r → b.Gap e a r
  | copy {β : Type} {a : Act β} {r : Except Fault β} : Staging.Gap e a r → b.Gap e a r
  | make (argv : List String) (instrumented : Bool) :
    b.Gap e (Tool.start ⟨argv, some b.tree, .streamed (environment instrumented)⟩) (.error e)
  | core : b.Gap e b.preserveCore (.error e)
  | snapshot : b.Gap e (Fingerprints.snapshot b.tree) (.error e)
  | original : b.Gap e (Staging.ensureDirectory b.original) (.error e)
  | patched : b.Gap e (Staging.ensureDirectory b.patched) (.error e)

/-- Values of which the arguments of a build can be made. -/
structure IsFit (b : Differential) : Prop where
  targets : ∃ ts, b.targets = Json.ofTexts ts
  extra : ∃ xs, b.extra = Json.ofTexts xs

end Differential

end Hotpatch
