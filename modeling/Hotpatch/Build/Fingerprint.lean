import Hotpatch.Digest
import Hotpatch.Kbuild.Owner

/-!
Fingerprints of compiled objects. A snapshot gives the digest of every object that was compiled from
one source file; two of them tell which objects changed and which are new.
-/

namespace Hotpatch

/-- Objects by their paths in the tree, with the digests of their contents. -/
abbrev Fingerprints := List (String × String)

namespace Fingerprints

def source : String := "livepatch_build.build.object_tracker"

/-- Whether a name is that of an object which may have been compiled, not linked or generated. -/
def isObjectName (name : String) : Bool :=
  Text.ends ".o" name && !Kbuild.aggregates.contains name && name ≠ "vmlinux.o" &&
    !Text.ends ".mod.o" name && !Text.starts ".tmp_" name

/-- Whether a path of the tree names an object that was compiled from one source file. -/
def isUnit (d : Disk) (cwd : Place) (tree path : String) : Bool :=
  isObjectName (basename path) &&
    Kbuild.recordsCompilation d cwd (Kbuild.recordOf (clean tree) path)

/-- Asks whether a path of the tree names an object that was compiled from one source file. -/
def askUnit (tree path : String) : Act Bool := do
  if isObjectName (basename path) then
    Act.query fun d w => Kbuild.compilationAt d w (Kbuild.recordOf (clean tree) path)
  else return false

/-- The object at a place of the tree with its digest, if it was compiled from one source file. -/
def fingerprintAt? (d : Disk) (cwd : Place) (tree : String) :
    List String × Node → Option (String × String)
  | (names, .file f) =>
    let path := "/".intercalate names
    if isUnit d cwd tree path then some (path, Digest.Sha2.sha256 f.content) else none
  | (_, .dir) => none

/-- The fingerprints of all compiled objects that are in no directory with a leading dot. -/
def ofTree (d : Disk) (cwd : Place) (tree : String) : Except DiskError Fingerprints :=
  match d.find cwd (clean tree) with
  | .ok (place, .dir) =>
    .ok ((d.beneath (!Text.starts "." ·) place).filterMap (fingerprintAt? d cwd tree))
  | .error .nullByte => .error (.failed .nullByte (clean tree))
  | _ => .ok []

/-- Takes the fingerprints of a tree as it is. -/
def snapshot (tree : String) : Act Fingerprints := do
  let fs ← Act.query fun d w => ofTree d w tree
  Log.debug source ("Fingerprinted " ++ toString fs.length ++ " objects in " ++ clean tree)
  return fs

structure Comparison where
  changed : List String
  new : List String
  deriving DecidableEq, Repr

/-- What a second snapshot shows against a first one, both sorted. -/
def compare (before after : Fingerprints) : Comparison :=
  let differs (p : String × String) : Bool :=
    match before.lookup p.1 with
    | some digest => digest ≠ p.2
    | none => false
  ⟨((after.filter differs).map Prod.fst).mergeSort,
    ((after.filter fun p => (before.lookup p.1).isNone).map Prod.fst).mergeSort⟩

end Fingerprints

end Hotpatch
