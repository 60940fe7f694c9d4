import Hotpatch.Sorted
import Hotpatch.Text.Utf8

/-!
A file tree. A place is the list of names that leads from the root; at a place stands a directory
or a file with its bytes. Every file that is made gets a serial number, which stays with it when it
is moved or written again, and every write stamps a time.
-/

namespace Hotpatch

abbrev Place := List String

def Place.text (p : Place) : String := "/" ++ "/".intercalate p

/-- Whether a place comes first where every directory is followed by all that is below it, name by
name in order. -/
def Place.before : Place → Place → Bool
  | [], _ => true
  | _ :: _, [] => false
  | a :: as, b :: bs => if a = b then before as bs else a ≤ b

structure File where
  content : Bytes
  time : Int
  serial : Nat
  deriving DecidableEq, Repr

inductive Node where
  | dir
  | file (f : File)
  deriving DecidableEq, Repr

structure Disk where
  nodes : List (Place × Node)
  clock : Nat
  deriving Repr

namespace Disk

def node? (d : Disk) (p : Place) : Option Node :=
  if p = [] then some .dir else d.nodes.lookup p

def isDirAt (d : Disk) (p : Place) : Bool := d.node? p = some .dir

def file? (d : Disk) (p : Place) : Option File :=
  match d.node? p with
  | some (.file f) => some f
  | _ => none

def put (d : Disk) (p : Place) (n : Node) : Disk :=
  { d with nodes := (p, n) :: d.nodes.filter (·.1 ≠ p) }

/-- Takes away a place and everything below it. -/
def erase (d : Disk) (p : Place) : Disk :=
  { d with nodes := d.nodes.filter (!p.isPrefixOf ·.1) }

def tick (d : Disk) : Disk := { d with clock := d.clock + 1 }

/-- The bytes `c` written at `p` at the time `t`; a file that stands there keeps its serial
number. -/
def store (d : Disk) (p : Place) (c : Bytes) (t : Int) : Disk :=
  (d.put p (.file ⟨c, t, match d.file? p with
    | some f => f.serial
    | none => d.clock⟩)).tick

/-- The names directly inside a directory, sorted. -/
def names (d : Disk) (p : Place) : List String :=
  Text.sorted (d.nodes.filterMap fun q =>
    if q.1.length = p.length + 1 && p.isPrefixOf q.1 then q.1.getLast? else none)

/-- Everything below `p` that is reached through directories whose names satisfy `enter`: the names
that lead to it from `p`, and what stands there. -/
def beneath (d : Disk) (enter : String → Bool) (p : Place) : List (Place × Node) :=
  d.nodes.filterMap fun q =>
    if p.isPrefixOf q.1 && p.length < q.1.length then
      let r := q.1.drop p.length
      if r.dropLast.all enter && (List.range r.length).all (fun i => d.isDirAt (p ++ r.take i)) then
        some (r, q.2)
      else none
    else none

end Disk

end Hotpatch
