import Hotpatch.Json

/-!
Reading JSON text. The whole text is one value with blanks around it. A name given twice in an
object has its first place and its last value. An escaped unit of half a character stands for the
replacement character. Integers may not be too long, and values not be nested too deeply. Main
definition: `Json.parse`.
-/

namespace Hotpatch.Json

/-- Why a text is not read. -/
inductive Flaw where
  | malformed
  /-- An integer has too many digits; their number. -/
  | tooLong (digits : Nat)
  | tooDeep
  deriving DecidableEq, Repr

/-- How many brackets and braces may be open at once. -/
def deepest : Nat := 989

def isSpace (c : Char) : Bool := c = ' ' || c = '\t' || c = '\n' || c = '\r'

def skip (cs : List Char) : List Char := cs.dropWhile isSpace

def hexValue? (c : Char) : Option Nat :=
  if '0' ≤ c && c ≤ '9' then some (c.toNat - 48)
  else if 'a' ≤ c && c ≤ 'f' then some (c.toNat - 87)
  else if 'A' ≤ c && c ≤ 'F' then some (c.toNat - 55)
  else none

def unescape? : Char → Option Nat
  | '"' => some 34
  | '\\' => some 92
  | '/' => some 47
  | 'b' => some 8
  | 'f' => some 12
  | 'n' => some 10
  | 'r' => some 13
  | 't' => some 9
  | _ => none

/-- The units of a string up to its closing mark, and what follows it. -/
def stringUnits : List Char → Option (List Nat × List Char)
  | [] => none
  | '"' :: r => some ([], r)
  | '\\' :: 'u' :: a :: b :: c :: d :: r => do
    let u := (← hexValue? a) * 4096 + (← hexValue? b) * 256 + (← hexValue? c) * 16 + (← hexValue? d)
    let (us, r) ← stringUnits r
    return (u :: us, r)
  | '\\' :: e :: r => do
    let u ← unescape? e
    let (us, r) ← stringUnits r
    return (u :: us, r)
  | c :: r =>
    if c.toNat < 32 then none
    else do
      let (us, r) ← stringUnits r
      return (c.toNat :: us, r)

def joinUnits : List Nat → List Char
  | [] => []
  | [u] => [if 0xd800 ≤ u && u < 0xe000 then '\uFFFD' else Char.ofNat u]
  | u :: v :: us =>
    if 0xd800 ≤ u && u < 0xdc00 && 0xdc00 ≤ v && v < 0xe000 then
      Char.ofNat (0x10000 + (u - 0xd800) * 0x400 + (v - 0xdc00)) :: joinUnits us
    else (if 0xd800 ≤ u && u < 0xe000 then '\uFFFD' else Char.ofNat u) :: joinUnits (v :: us)

def string? (cs : List Char) : Option (String × List Char) :=
  (stringUnits cs).map fun r => (String.ofList (joinUnits r.1), r.2)

def isDigit (c : Char) : Bool := '0' ≤ c && c ≤ '9'

def number (ds : List Char) : Nat := ds.foldl (fun n c => n * 10 + (c.toNat - 48)) 0

/-- The digits after a mark, if there are any. -/
def fraction? : List Char → Option (List Char × List Char)
  | '.' :: r =>
    let ds := r.takeWhile isDigit
    if ds.isEmpty then none else some (ds, r.dropWhile isDigit)
  | _ => none

def exponent? : List Char → Option (Int × List Char)
  | e :: r =>
    if e = 'e' || e = 'E' then
      let (sign, r) : Int × List Char := match r with
        | '-' :: r => (-1, r)
        | '+' :: r => (1, r)
        | r => (1, r)
      let ds := r.takeWhile isDigit
      if ds.isEmpty then none else some (sign * number ds, r.dropWhile isDigit)
    else none
  | [] => none

def readInteger (negative : Bool) (ds r : List Char) : Except Flaw (Json × List Char) :=
  if longest < ds.length then .error (.tooLong ds.length)
  else .ok (int (if negative then -(number ds : Int) else number ds), r)

/-- A number without its sign: zero stands alone, no other number begins with it. -/
def readNumber (negative : Bool) (cs : List Char) : Except Flaw (Json × List Char) :=
  let ds := match cs with
    | '0' :: _ => ['0']
    | _ => cs.takeWhile isDigit
  if ds.isEmpty then .error .malformed
  else
    let r := cs.drop ds.length
    let (fs, r, f) := match fraction? r with
      | some (fs, r) => (fs, r, true)
      | none => ([], r, false)
    let real (e : Int) (r : List Char) : Except Flaw (Json × List Char) :=
      .ok (real (.ofDecimal negative (number (ds ++ fs)) (e - fs.length)), r)
    match exponent? r, f with
    | none, false => readInteger negative ds r
    | none, true => real 0 r
    | some (e, r), _ => real e r

def readWord (word : String) (j : Json) (cs : List Char) : Except Flaw (Json × List Char) :=
  if word.toList.isPrefixOf cs then .ok (j, cs.drop word.length) else .error .malformed

def readText (cs : List Char) : Except Flaw (String × List Char) :=
  match string? cs with
  | some r => .ok r
  | none => .error .malformed

def readScalar (cs : List Char) : Except Flaw (Json × List Char) :=
  match cs with
  | '"' :: r => (readText r).map fun p => (str p.1, p.2)
  | 'n' :: _ => readWord "null" null cs
  | 't' :: _ => readWord "true" (bool true) cs
  | 'f' :: _ => readWord "false" (bool false) cs
  | 'N' :: _ => readWord "NaN" (real .notNumber) cs
  | 'I' :: _ => readWord "Infinity" (real (.infinite false)) cs
  | '-' :: 'I' :: _ => readWord "-Infinity" (real (.infinite true)) cs
  | '-' :: r => readNumber true r
  | _ => readNumber false cs

def setMember (k : String) (j : Json) : List (String × Json) → List (String × Json)
  | [] => [(k, j)]
  | (k', j') :: ms => if k' = k then (k, j) :: ms else (k', j') :: setMember k j ms

mutual

/-- A value in which so many brackets may still be opened. -/
def readValue (depth : Nat) : Nat → List Char → Except Flaw (Json × List Char)
  | 0, _ => .error .malformed
  | n + 1, cs =>
    match cs with
    | '[' :: r =>
      if depth = 0 then .error .tooDeep
      else match skip r with
        | ']' :: r => .ok (arr [], r)
        | r => (readItems (depth - 1) n r).map fun p => (arr p.1, p.2)
    | '{' :: r =>
      if depth = 0 then .error .tooDeep
      else match skip r with
        | '}' :: r => .ok (obj [], r)
        | r => (readMembers (depth - 1) n [] r).map fun p => (obj p.1, p.2)
    | _ => readScalar cs

/-- The items of a list from the first one to the closing bracket. -/
def readItems (depth : Nat) : Nat → List Char → Except Flaw (List Json × List Char)
  | 0, _ => .error .malformed
  | n + 1, cs => do
    let (j, r) ← readValue depth n cs
    match skip r with
    | ',' :: r =>
      let (js, r) ← readItems depth n (skip r)
      return (j :: js, r)
    | ']' :: r => return ([j], r)
    | _ => throw .malformed

/-- The members of an object from the first one to the closing brace, added to those before. -/
def readMembers (depth : Nat) :
    Nat → List (String × Json) → List Char → Except Flaw (List (String × Json) × List Char)
  | 0, _, _ => .error .malformed
  | n + 1, ms, cs => do
    match cs with
    | '"' :: r =>
      let (k, r) ← readText r
      match skip r with
      | ':' :: r =>
        let (j, r) ← readValue depth n (skip r)
        let ms := setMember k j ms
        match skip r with
        | ',' :: r => readMembers depth n ms (skip r)
        | '}' :: r => return (ms, r)
        | _ => throw .malformed
      | _ => throw .malformed
    | _ => throw .malformed

end

/-- The value a text stands for. Every two steps of the reading take a character, so the length of the
text bounds them. -/
def parse (s : String) : Except Flaw Json := do
  let cs := s.toList
  let (j, r) ← readValue deepest (2 * cs.length + 1) (skip cs)
  if (skip r).isEmpty then return j else throw .malformed

def parse? (s : String) : Option Json := (parse s).toOption

end Hotpatch.Json
