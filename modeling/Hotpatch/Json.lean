import Hotpatch.Binary64
import Hotpatch.Text.Quoted

/-!
JSON values and their text. `render` writes a value on one line, `renderIndented` over several with
two spaces for each level; both write ASCII only. Objects keep the order of their members. Writing
over several lines breaks off at an integer that has too many digits, see `cut?`.
-/

namespace Hotpatch

inductive Json where
  | null
  | bool (b : Bool)
  | int (n : Int)
  /-- A number that is not written as an integer. -/
  | real (x : Binary64)
  | str (s : String)
  | arr (items : List Json)
  | obj (members : List (String × Json))

namespace Json

/-- The units of UTF-16 for a character. -/
def units (c : Char) : List Nat :=
  let n := c.toNat
  if n < 0x10000 then [n] else [0xd800 + (n - 0x10000) / 0x400, 0xdc00 + (n - 0x10000) % 0x400]

def escape (c : Char) : List Char :=
  if c = '"' then ['\\', '"']
  else if c = '\\' then ['\\', '\\']
  else if c = '\n' then ['\\', 'n']
  else if c = '\r' then ['\\', 'r']
  else if c = '\t' then ['\\', 't']
  else if c.toNat = 8 then ['\\', 'b']
  else if c.toNat = 12 then ['\\', 'f']
  else if 32 ≤ c.toNat && c.toNat < 127 then [c]
  else (units c).flatMap fun u => '\\' :: 'u' :: Text.hex 4 u

def quote (s : String) : List Char := '"' :: s.toList.flatMap escape ++ ['"']

def atom : Json → List Char
  | null => "null".toList
  | bool true => "true".toList
  | bool false => "false".toList
  | int n => (toString n).toList
  | real (.infinite negative) => (if negative then "-Infinity" else "Infinity").toList
  | real .notNumber => "NaN".toList
  | real x => x.shown.toList
  | str s => quote s
  | arr _ | obj _ => []

mutual

def chars : Json → List Char
  | arr items => '[' :: itemChars items ++ [']']
  | obj members => '{' :: memberChars members ++ ['}']
  | j => atom j

def itemChars : List Json → List Char
  | [] => []
  | [j] => chars j
  | j :: js => chars j ++ ',' :: itemChars js

def memberChars : List (String × Json) → List Char
  | [] => []
  | [(k, j)] => quote k ++ ':' :: chars j
  | (k, j) :: ms => quote k ++ ':' :: chars j ++ ',' :: memberChars ms

end

def render (j : Json) : String := String.ofList (chars j)

def newline (level : Nat) : List Char := '\n' :: List.replicate (2 * level) ' '

mutual

def indentedChars (level : Nat) : Json → List Char
  | arr [] => ['[', ']']
  | arr (j :: js) => '[' :: indentedItems (level + 1) (j :: js) ++ newline level ++ [']']
  | obj [] => ['{', '}']
  | obj (m :: ms) => '{' :: indentedMembers (level + 1) (m :: ms) ++ newline level ++ ['}']
  | j => atom j

def indentedItems (level : Nat) : List Json → List Char
  | [] => []
  | [j] => newline level ++ indentedChars level j
  | j :: js => newline level ++ indentedChars level j ++ ',' :: indentedItems level js

def indentedMembers (level : Nat) : List (String × Json) → List Char
  | [] => []
  | [(k, j)] => newline level ++ quote k ++ ':' :: ' ' :: indentedChars level j
  | (k, j) :: ms =>
    newline level ++ quote k ++ ':' :: ' ' :: indentedChars level j ++
      ',' :: indentedMembers level ms

end

def renderIndented (j : Json) : String := String.ofList (indentedChars 0 j)

/-- How many digits an integer has at most. -/
def longest : Nat := 4300

/-- Whether a value is an integer with too many digits. -/
def isTooLong : Json → Bool
  | int n => longest < (Nat.toDigits 10 n.natAbs).length
  | _ => false

mutual

/-- What is written of a value before an integer in it that has too many digits, if there is one. -/
def cutChars? (level : Nat) : Json → Option (List Char)
  | arr js => cutItems? (level + 1) ['['] js
  | obj ms => (cutMembers? (level + 1) ms).map ('{' :: ·)
  | _ => none

/-- What stands between items is written together with the integer behind it, or not at all. -/
def cutItems? (level : Nat) (ahead : List Char) : List Json → Option (List Char)
  | [] => none
  | j :: js =>
    if j.isTooLong then some []
    else match cutChars? level j with
      | some cs => some (ahead ++ newline level ++ cs)
      | none => (cutItems? level [','] js).map (ahead ++ newline level ++ indentedChars level j ++ ·)

def cutMembers? (level : Nat) : List (String × Json) → Option (List Char)
  | [] => none
  | (k, j) :: ms =>
    let ahead := newline level ++ quote k ++ [':', ' ']
    if j.isTooLong then some ahead
    else match cutChars? level j with
      | some cs => some (ahead ++ cs)
      | none => (cutMembers? level ms).map (ahead ++ indentedChars level j ++ ',' :: ·)

end

/-- Where writing breaks off, if it does. -/
def cut? (j : Json) : Option String := (cutChars? 0 j).map String.ofList

def get? (j : Json) (key : String) : Option Json :=
  match j with
  | obj ms => ms.lookup key
  | _ => none

end Json

end Hotpatch
