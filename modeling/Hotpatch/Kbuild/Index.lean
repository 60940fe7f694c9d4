import Hotpatch.Kbuild.Record

/-!
What is linked into what. An `Index` collects the edges from objects to the targets whose records
name them, directory by directory or for a whole tree. Each directory is read once. A file that is
named `.cmd` and nothing more is a record where a whole tree is added, but not where its directory
is added alone.
-/

namespace Hotpatch.Kbuild

structure Edge where
  input : String
  target : String
  deriving DecidableEq, Repr

structure Index where
  /-- The source tree. -/
  source : String
  /-- The directories that were added, by their paths in the tree. -/
  dirs : List String
  edges : List Edge
  deriving DecidableEq, Repr

/-- What a directory or a record contributes: its edges, what is to be said about records that
can't be read, and why the search was broken off, if it was. -/
structure Contribution where
  edges : List Edge
  complaints : List String
  stop : Option DiskError
  deriving DecidableEq, Repr

namespace Contribution

def nothing : Contribution := ⟨[], [], none⟩

/-- What is contributed behind counts only where the search got there. -/
def append (a b : Contribution) : Contribution :=
  if a.stop.isSome then a else ⟨a.edges ++ b.edges, a.complaints ++ b.complaints, b.stop⟩

def join (cs : List Contribution) : Contribution := cs.foldr append nothing

/-- The edges of one record. -/
def ofRecord (d : Disk) (cwd : Place) (source file : String) : Contribution :=
  match target? cwd file source with
  | none => nothing
  | some target =>
    if isPart target then
      match d.readText cwd file with
      | .error e => ⟨[], ["Could not read " ++ file ++ ": " ++ e.message], none⟩
      | .ok text =>
        let ins := Found.ofEach (inputs d cwd source (dirname target)) (commands text)
        ⟨(ins.items.filter (· ≠ target)).map (⟨·, target⟩), [], ins.stop⟩
    else nothing

def isRecordName (name : String) : Bool := Text.starts "." name && Text.ends ".cmd" name

/-- A record name with something between the dot and the ending. -/
def isFullRecordName (name : String) : Bool := 5 ≤ name.length && isRecordName name

/-- The edges of all records directly inside a directory of the tree; their names satisfy
`taken`. -/
def ofDirectory (taken : String → Bool) (d : Disk) (cwd : Place) (source dir : String) :
    Contribution :=
  let path := under source dir
  match d.find cwd path with
  | .ok (place, .dir) =>
    join (((d.names place).filter taken).map fun n => ofRecord d cwd source (under path n))
  | .error .nameTooLong => ⟨[], [], some (.failed .nameTooLong path)⟩
  | _ => nothing

end Contribution

/-- The directories of a tree, each followed by those below it. Those inside `.git` directories are
left out, and those whose paths are too long to be followed. -/
def directories (d : Disk) (cwd : Place) (source : String) : Found String :=
  match d.find cwd source with
  | .ok (place, .dir) =>
    let below := (d.beneath (· ≠ ".git") place).filterMap fun p =>
      if p.2 = .dir && p.1.getLast? ≠ some ".git" then some p.1 else none
    .all ("." :: ((sortBy Place.before below).map ("/".intercalate ·)).filter fun dir =>
      d.isDir cwd (under source dir))
  | .error .nullByte => ⟨[], some (.failed .nullByte source)⟩
  | _ => .all []

/-- An index after something was added, what is to be said, and why the search was broken off, if it
was; what was found until then stays. -/
structure Growth where
  index : Index
  complaints : List String
  stop : Option DiskError
  deriving DecidableEq, Repr

namespace Index

def empty (source : String) : Index := ⟨clean source, [], []⟩

/-- Adds a directory in normal form, unless it was added before. -/
def insertDir (taken : String → Bool) (d : Disk) (cwd : Place) (i : Index) (dir : String) :
    Growth :=
  if dir ∈ i.dirs then ⟨i, [], none⟩
  else
    let c := Contribution.ofDirectory taken d cwd i.source dir
    ⟨⟨i.source, dir :: i.dirs, c.edges.foldr List.insert i.edges⟩, c.complaints, c.stop⟩

def addDirectory (d : Disk) (cwd : Place) (i : Index) (dir : String) : Growth :=
  i.insertDir Contribution.isFullRecordName d cwd (normalize dir)

def insertDirs (d : Disk) (cwd : Place) (i : Index) : List String → Growth
  | [] => ⟨i, [], none⟩
  | dir :: dirs =>
    let g := i.insertDir Contribution.isRecordName d cwd dir
    if g.stop.isSome then g else g.index.insertDirs d cwd dirs

/-- Adds every directory of the tree; only what is a file counts as a record. -/
def addTree (d : Disk) (cwd : Place) (i : Index) : Growth :=
  let dirs := directories d cwd i.source
  let g := i.insertDirs d cwd dirs.items
  if g.stop.isSome then g else { g with stop := dirs.stop }

/-- What is noted when a whole tree was added. -/
def summary (i : Index) : String :=
  "Indexed " ++ toString i.edges.length ++ " build edges in " ++ i.source

/-- The targets that an object goes into, sorted. -/
def parents (i : Index) (object : String) : List String :=
  Text.sorted ((i.edges.filter (·.input = normalize object)).map Edge.target)

end Index

end Hotpatch.Kbuild
