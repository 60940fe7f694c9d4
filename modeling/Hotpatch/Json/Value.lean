import Hotpatch.Json

/-!
Values of any make. Where a value of one make is needed, those of the others still have a meaning:
a truth, a text in messages, a row of items; and numbers are equal however they are written.
-/

namespace Hotpatch.Json

/-- Whether a value counts as given: it is no zero and not empty. -/
def isTrue : Json → Bool
  | null => false
  | bool b => b
  | int n => n ≠ 0
  | real x => !x.isZero
  | str s => s ≠ ""
  | arr js => !js.isEmpty
  | obj ms => !ms.isEmpty

/-- What kind of value it is. -/
def make : Json → String
  | null => "NoneType"
  | bool _ => "bool"
  | int _ => "int"
  | real _ => "float"
  | str _ => "str"
  | arr _ => "list"
  | obj _ => "dict"

def isNull : Json → Bool
  | null => true
  | _ => false

mutual

/-- The text of a value inside of others. -/
def innerText : Json → String
  | null => "None"
  | bool b => if b then "True" else "False"
  | int n => toString n
  | real x => x.shown
  | str s => Text.quoted s
  | arr js => "[" ++ itemTexts js ++ "]"
  | obj ms => "\x7b" ++ memberTexts ms ++ "\x7d"

def itemTexts : List Json → String
  | [] => ""
  | [j] => innerText j
  | j :: js => innerText j ++ ", " ++ itemTexts js

def memberTexts : List (String × Json) → String
  | [] => ""
  | [(k, j)] => Text.quoted k ++ ": " ++ innerText j
  | (k, j) :: ms => Text.quoted k ++ ": " ++ innerText j ++ ", " ++ memberTexts ms

end

/-- The text of a value in messages; a text stands for itself. -/
def shown : Json → String
  | str s => s
  | j => innerText j

/-- The items a value consists of: characters of a text, names of an object. -/
def items? : Json → Option (List Json)
  | arr js => some js
  | str s => some (s.toList.map fun c => str c.toString)
  | obj ms => some (ms.map fun m => str m.1)
  | _ => none

def bit (b : Bool) : Int := if b then 1 else 0

/-- Whether two values without items are equal; truth values are the numbers one and zero. -/
def sameAtom : Json → Json → Bool
  | null, null => true
  | bool a, bool b => a = b
  | bool a, int n | int n, bool a => n = bit a
  | bool a, real x | real x, bool a => x.isInt (bit a)
  | int m, int n => m = n
  | int n, real x | real x, int n => x.isInt n
  | real x, real y => x.same y
  | str s, str t => s = t
  | _, _ => false

mutual

/-- Whether two values are equal; the order of the members of an object doesn't matter. -/
def same : Json → Json → Bool
  | arr js, arr ks => sameItems js ks
  | obj ms, obj ns => ms.length = ns.length && sameMembers ms ns
  | j, k => sameAtom j k

def sameItems : List Json → List Json → Bool
  | [], [] => true
  | j :: js, k :: ks => same j k && sameItems js ks
  | _, _ => false

def sameMembers : List (String × Json) → List (String × Json) → Bool
  | [], _ => true
  | (n, j) :: ms, ns => (match ns.lookup n with
    | some k => same j k
    | none => false) && sameMembers ms ns

end

/-- Whether a number is below one; what is no number can't be compared. -/
def isBelowOne? : Json → Option Bool
  | int n => some (n < 1)
  | bool b => some (!b)
  | real x => some x.isBelowOne
  | _ => none

/-- Whether a value is the number zero. -/
def isZero : Json → Bool
  | int n => n = 0
  | bool b => !b
  | real x => x.isZero
  | _ => false

end Hotpatch.Json
