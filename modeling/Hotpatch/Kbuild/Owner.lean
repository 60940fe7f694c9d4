import Hotpatch.Host
import Hotpatch.Kbuild.Index

/-!
The kernel binary that an object ends up in. From an object the resolver climbs from parent to
parent until it meets a module or something that is only ever linked into the kernel image. The
parents are looked for in the object's own directory, then in the directory where the last search of
the tree succeeded, then in the whole tree.
-/

namespace Hotpatch.Kbuild

/-- The kernel image or a loadable module. -/
structure Binary where
  path : String
  isImage : Bool
  deriving DecidableEq, Repr

def Binary.name (b : Binary) : String := if b.isImage then "vmlinux" else stem b.path

def isModule (path : String) : Bool := Text.ends ".ko" path

/-- The archives that Kbuild makes of every directory. -/
def aggregates : List String := ["built-in.o", "built-in.a"]

/-- What is linked straight into the kernel image. -/
def imageParts : List String := [
  "vmlinux.o", "vmlinux.a", "lib/lib.a", "arch/x86/lib/lib.a", "arch/x86/kernel/head*.o",
  "arch/x86/kernel/ebda.o", "arch/x86/kernel/platform-quirks.o"]

def isImagePart (path : String) : Bool :=
  aggregates.contains (basename path) || imageParts.any (Text.Wildcard.matches · path)

structure Resolver where
  /-- The source tree, by its absolute path. -/
  source : String
  image : Binary
  /-- A module from outside the tree, which owns every object if it is there. -/
  outside : Option Binary
  /-- For each object the parents met where there was more than one, in order. -/
  ambiguities : List (String × List String)
  lastBroadDir : Option String
  /-- The directories looked at by themselves. -/
  near : Index
  /-- The whole tree, once it was needed. -/
  tree : Option Index
  /-- The owners found so far. -/
  known : List (String × Binary)

structure Note where
  level : Log.Level
  text : String
  deriving DecidableEq, Repr

/-- A search reads the file tree, goes on with what the resolver knows, and takes notes, newest
first. What it learns stays also where it fails. -/
structure Searching where
  resolver : Resolver
  notes : List Note

abbrev Search := ReaderT (Disk × Place) (ExceptT Fault (StateM Searching))

namespace Resolver

def channel : String := "livepatch_build.build.build_graph"

def ofTree (cwd : Place) (source image : String) (outside : Option String) : Resolver :=
  let full := absolute (Place.text cwd)
  { source := full source
    image := ⟨full image, true⟩
    outside := match outside with
      | none => none
      | some m => if m = "" then none else some ⟨full m, false⟩
    ambiguities := []
    lastBroadDir := none
    near := Index.empty (full source)
    tree := none
    known := [] }

def isAmbiguous (r : Resolver) (object : String) : Bool :=
  (r.ambiguities.lookup (normalize object)).isSome

def addAmbiguity (object : String) (parents : List String) :
    List (String × List String) → List (String × List String)
  | [] => [(object, parents)]
  | (o, ps) :: r =>
    if o = object then (o, ps ++ parents) :: r else (o, ps) :: addAmbiguity object parents r

end Resolver

namespace Search

def note (level : Log.Level) (text : String) : Search Unit :=
  modify fun s => { s with notes := ⟨level, text⟩ :: s.notes }

def resolver : Search Resolver := return (← get).resolver

def update (f : Resolver → Resolver) : Search Unit :=
  modify fun s => { s with resolver := f s.resolver }

/-- Ends a search that was broken off. -/
def goOn : Option DiskError → Search Unit
  | some e => throw (.ofDisk e)
  | none => pure ()

/-- Adds a directory to those looked at by themselves. -/
def lookNear (dir : String) : Search Unit := do
  let (d, cwd) ← read
  let g := (← resolver).near.addDirectory d cwd dir
  g.complaints.forM (note .warning)
  update fun r => { r with near := g.index }
  goOn g.stop

/-- The parents recorded in a directory. -/
def parentsIn (dir object : String) : Search (List String) := do
  lookNear dir
  return ((← resolver).near.parents object).filter (dirname · = dir)

/-- The parents recorded in the object's own directory. -/
def localParents (object : String) : Search (List String) := parentsIn (dirname object) object

/-- The index of the whole tree, which is made once. -/
def wholeTree (object : String) : Search Index := do
  let r ← resolver
  match r.tree with
  | some t => return t
  | none =>
    let (d, cwd) ← read
    note .debug ("Indexing the whole tree to find the parent of " ++ object)
    let g := (Index.empty r.source).addTree d cwd
    update fun r => { r with tree := some g.index }
    goOn g.stop
    note .debug g.index.summary
    return g.index

/-- The parents recorded in the whole tree. A single one tells where to look first next time. -/
def treeParents (object : String) : Search (List String) := do
  let ps := (← wholeTree object).parents object
  if let [p] := ps then update fun r => { r with lastBroadDir := some (dirname p) }
  return ps

/-- The parents recorded anywhere in the tree, those of the last such directory first. -/
def broadParents (object : String) : Search (List String) := do
  match (← resolver).lastBroadDir with
  | none => treeParents object
  | some dir =>
    match ← parentsIn dir object with
    | [] => treeParents object
    | ps => return ps

def parents (object : String) : Search (List String) := do
  match ← localParents object with
  | [] => broadParents object
  | ps => return ps

/-- Climbs from `current` to the binary; `met` are the objects on the way from `object`. -/
def climb (object : String) : Nat → List String → String → Search Binary
  | 0, _, current => throw (.failure (.unresolved object ("dependency cycle at " ++ current)))
  | n + 1, met, current => do
    if isModule current then return ⟨under (← resolver).source current, false⟩
    if isImagePart current then return (← resolver).image
    if current ∈ met then throw (.failure (.unresolved object ("dependency cycle at " ++ current)))
    match ← parents current with
    | [] => throw (.failure (.unresolved object ("invalid ancestor " ++ current)))
    | p :: ps =>
      if ps ≠ [] then
        note .debug (current ++ " has " ++ toString (ps.length + 1) ++ " parents: " ++
          ", ".intercalate (p :: ps))
        update fun r =>
          { r with ambiguities := Resolver.addAmbiguity object (p :: ps) r.ambiguities }
      climb object n (current :: met) p

/-- More than the objects that can be met on a way up: every one but the first is the target of an
edge already collected or of a record in the file tree. -/
def height (d : Disk) (r : Resolver) : Nat :=
  r.near.edges.length + (r.tree.elim 0 fun t => t.edges.length) + d.nodes.length + 2

/-- The owner of an object. -/
def owner (object : String) : Search Binary := do
  let object := normalize object
  let r ← resolver
  if let some m := r.outside then return m
  if let some b := r.known.lookup object then return b
  let b ← climb object (height (← read).1 r) [] object
  note .debug (object ++ " is linked into " ++ b.name)
  update fun r => { r with known := (object, b) :: r.known }
  return b

/-- Runs a search on the file tree as it is; its notes go into the log. -/
def perform {α} (r : Resolver) (s : Search α) : Act (Except Fault α × Resolver) := do
  let d ← Act.disk
  let (a, t) := s (d, (← read).cwd) ⟨r, []⟩
  t.notes.reverse.forM fun n => Log.emit ⟨Resolver.channel, n.level, n.text⟩
  return (a, t.resolver)

end Search

namespace Index

/-- Adds a directory of the file tree as it is; what is to be said goes into the log. The fault is
the one that broke off the search. -/
def learnDirectory (i : Index) (dir : String) : Act (Option Fault × Index) := do
  let g ← Act.ask fun d cwd => i.addDirectory d cwd dir
  g.complaints.forM (Log.warning Resolver.channel)
  return (g.stop.map .ofDisk, g.index)

/-- Adds the whole tree as it is. -/
def learnTree (i : Index) : Act (Option Fault × Index) := do
  let g ← Act.ask fun d cwd => i.addTree d cwd
  if g.stop.isNone then Log.debug Resolver.channel g.index.summary
  return (g.stop.map .ofDisk, g.index)

end Index

end Hotpatch.Kbuild
