/-!
Line ends. `unify` writes every line end as a line feed, `feedLines` cuts at line feeds alone and
`splitLines` at every line boundary that Unicode knows; `pieces` cuts at one separator.
-/

namespace Hotpatch.Text

/-- Carriage returns, alone or before a line feed, become line feeds. -/
def unify : List Char → List Char
  | [] => []
  | '\r' :: '\n' :: cs => '\n' :: unify cs
  | '\r' :: cs => '\n' :: unify cs
  | c :: cs => c :: unify cs

/-- Puts an element before the first line, opening a line where there is none. -/
def onFirst {α} (c : α) : List (List α) → List (List α)
  | [] => [[c]]
  | l :: ls => (c :: l) :: ls

/-- The lines of a text, each ended by a line feed or by the end of the text. -/
def feedLines : List Char → List (List Char)
  | [] => []
  | c :: cs => if c = '\n' then [] :: feedLines cs else onFirst c (feedLines cs)

/-- The pieces between separators; there is one more than there are separators. -/
def pieces {α} [DecidableEq α] (sep : α) : List α → List (List α)
  | [] => [[]]
  | c :: cs => if c = sep then [] :: pieces sep cs else onFirst c (pieces sep cs)

/-- The characters that end a line; a carriage return takes a following line feed with it. -/
def isLineEnd (c : Char) : Bool :=
  let n := c.toNat
  (10 ≤ n && n ≤ 13) || (28 ≤ n && n ≤ 30) || n = 0x85 || n = 0x2028 || n = 0x2029

/-- The text cut at every line boundary; no line is empty only because the text ends there. -/
def splitLines : List Char → List (List Char)
  | [] => []
  | '\r' :: '\n' :: cs => [] :: splitLines cs
  | c :: cs => if isLineEnd c then [] :: splitLines cs else onFirst c (splitLines cs)

def lines (s : String) : List String :=
  (splitLines s.toList).map String.ofList

end Hotpatch.Text
