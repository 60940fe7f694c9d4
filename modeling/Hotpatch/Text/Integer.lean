import Hotpatch.Text.Blank
import Hotpatch.Text.Digit

/-!
The integer a text spells: blanks around it, but no information separators, one sign, digits of any
script, and single underscores between digits are allowed. It may not have too many digits.
-/

namespace Hotpatch.Text

/-- Reads digits into `acc`; `fresh` says that a digit has to come next. -/
def readDigits (acc : Nat) (fresh : Bool) : List Char → Option Nat
  | [] => if fresh then none else some acc
  | '_' :: cs => if fresh then none else readDigits acc true cs
  | c :: cs => (digit? c).bind fun d => readDigits (acc * 10 + d) false cs

/-- Blanks that may surround a number. -/
def isNumberBlank (c : Char) : Bool := isBlank c && !(28 ≤ c.toNat && c.toNat ≤ 31)

/-- How many digits an integer has at most. -/
def mostDigits : Nat := 4300

/-- The natural number that digits spell. -/
def natural? (cs : List Char) : Option Nat :=
  if mostDigits < cs.countP fun c => (digit? c).isSome then none else readDigits 0 true cs

def integer? (s : String) : Option Int :=
  match strip isNumberBlank s.toList with
  | '-' :: cs => (natural? cs).map fun n => -(n : Int)
  | '+' :: cs => (natural? cs).map fun n => (n : Int)
  | cs => (natural? cs).map fun n => (n : Int)

end Hotpatch.Text
