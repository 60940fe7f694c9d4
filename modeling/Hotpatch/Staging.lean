import Hotpatch.Host
import Hotpatch.Digest

/-!
Keeping build products: directories, digests of files, and copies that keep their path from one
tree to another.
-/

namespace Hotpatch.Staging

/-- Makes a directory with all above it, and gives its clean path. -/
def ensureDirectory (path : String) : Act String := do
  Act.makeDirs (clean path)
  return clean path

/-- The digest of a file in hexadecimal. -/
def digest (path algorithm : String) : Act String := do
  if algorithm.toList.contains '\x00' then throw .illTyped
  match Digest.named? algorithm with
  | none => throw (.invalid ("unsupported hash type " ++ algorithm))
  | some kind =>
    match kind.hash? (← Act.query (·.read · path)) with
    | some text => return text
    | none => throw .illTyped

/-- Copies `path` from one tree to the same place in another. -/
def stage (source path target : String) : Act String := do
  let a := under source path
  let b := under target path
  let r ← Act.attempt do
    Act.makeDirs (parent b)
    Act.change (·.copy · a b)
  match r with
  | .ok _ => return b
  | .error (.disk e) =>
    Act.fail (.staging ("failed to stage " ++ a ++ " -> " ++ b ++ ": " ++ e.message))
  | .error e => throw e

end Hotpatch.Staging
