/-!
Beginnings, ends and inner parts of texts, and wildcard patterns in which `*` stands for any text,
slashes and line ends included. Main definition: `Wildcard.matches`.
-/

namespace Hotpatch.Text

def starts (pre s : String) : Bool := pre.toList.isPrefixOf s.toList

def ends (suf s : String) : Bool := suf.toList.isSuffixOf s.toList

/-- Whether `part` occurs somewhere in the text. -/
def occurs (part : List Char) : List Char → Bool
  | [] => part.isEmpty
  | c :: cs => part.isPrefixOf (c :: cs) || occurs part cs

/-- What follows the beginning `pre` of a text, if it begins so. -/
def after? : List Char → List Char → Option (List Char)
  | [], cs => some cs
  | _ :: _, [] => none
  | p :: ps, c :: cs => if p = c then after? ps cs else none

/-- The text before and after the first occurrence of a character. -/
def cut? (c : Char) : List Char → Option (List Char × List Char)
  | [] => none
  | d :: ds => if d = c then some ([], ds) else (cut? c ds).map fun r => (d :: r.1, r.2)

/-- The text before and after the last occurrence of a character. -/
def cutLast? (c : Char) (cs : List Char) : Option (List Char × List Char) :=
  (cut? c cs.reverse).map fun r => (r.2.reverse, r.1.reverse)

namespace Wildcard

/-- A star matches every text, any other character itself. -/
def matchesChars : List Char → List Char → Bool
  | [], [] => true
  | [], _ :: _ => false
  | p :: ps, [] => p = '*' && matchesChars ps []
  | p :: ps, c :: cs =>
    if p = '*' then matchesChars ps (c :: cs) || matchesChars (p :: ps) cs
    else p = c && matchesChars ps cs
termination_by ps cs => ps.length + cs.length

def «matches» (pattern s : String) : Bool := matchesChars pattern.toList s.toList

end Wildcard

end Hotpatch.Text
