/-!
A patch series: an ordered list of patches on a source tree, and how far it is applied. The patches
go in one after the other from the front and come out in reverse, so a number says which are in.
-/

namespace Hotpatch

inductive Phase where
  | pending | applied | reverting | reverted
  deriving DecidableEq, Repr

def Phase.name : Phase → String
  | .pending => "pending"
  | .applied => "applied"
  | .reverting => "reverting"
  | .reverted => "reverted"

structure Series where
  /-- The source tree. -/
  source : String
  /-- The patch files in order of application, by absolute paths. -/
  patches : List String
  phase : Phase
  count : Nat
  deriving DecidableEq, Repr

namespace Series

def empty : Series := ⟨".", [], .pending, 0⟩

/-- The patches that are in, in order of application. -/
def appliedPatches (s : Series) : List String := s.patches.take s.count

end Series

end Hotpatch
