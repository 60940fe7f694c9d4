/-!
Blank characters, trimming and splitting at blanks. Main definitions: `isBlank`, `trim`, `words`.
-/

namespace Hotpatch.Text

/-- White space, the next-line character and the four information separators U+001C to U+001F. -/
def isBlank (c : Char) : Bool :=
  let n := c.toNat
  (9 ≤ n && n ≤ 13) || (28 ≤ n && n ≤ 32) || n = 0x85 || n = 0xa0 || n = 0x1680 ||
    (0x2000 ≤ n && n ≤ 0x200a) || n = 0x2028 || n = 0x2029 || n = 0x202f || n = 0x205f || n = 0x3000

def dropEnd (p : Char → Bool) (cs : List Char) : List Char :=
  (cs.reverse.dropWhile p).reverse

/-- The text without what satisfies `p` at both its ends. -/
def strip (p : Char → Bool) (cs : List Char) : List Char :=
  dropEnd p (cs.dropWhile p)

def trim (s : String) : String :=
  String.ofList (strip isBlank s.toList)

/-- Whether the text starts inside a run of characters that do not satisfy `p`. -/
def startsRun (p : Char → Bool) : List Char → Bool
  | [] => false
  | c :: _ => !p c

/-- The maximal runs of characters that do not satisfy `p`, in order. -/
def runs (p : Char → Bool) : List Char → List (List Char)
  | [] => []
  | c :: cs =>
    if p c then runs p cs
    else if startsRun p cs then match runs p cs with
      | [] => [[c]]
      | r :: rs => (c :: r) :: rs
    else [c] :: runs p cs

/-- The words of a text: its runs of characters that are not blank. -/
def words (s : String) : List String :=
  (runs isBlank s.toList).map String.ofList

end Hotpatch.Text
