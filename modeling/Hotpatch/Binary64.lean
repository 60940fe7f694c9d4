/-!
Numbers with a fraction, as they are kept: a significand of 53 bits times a power of two. A ratio is
rounded to the nearest such number, of two equally near ones to the even; a number is written with
the fewest digits that read back as the same. Main definitions: `Binary64.ofDecimal`,
`Binary64.shown`.
-/

namespace Hotpatch

inductive Binary64 where
  /-- `significand * 2 ^ exponent`. -/
  | finite (negative : Bool) (significand : Nat) (exponent : Int)
  | infinite (negative : Bool)
  | notNumber
  deriving DecidableEq, Repr

namespace Binary64

def zero (negative : Bool) : Binary64 := .finite negative 0 (-1074)

/-- A ratio, above and below its line. -/
abbrev Ratio := Nat × Nat

def Ratio.floor (r : Ratio) : Nat := r.1 / r.2

/-- A ratio times a power of two. -/
def Ratio.timesTwo (r : Ratio) (e : Int) : Ratio :=
  if 0 ≤ e then (r.1 <<< e.toNat, r.2) else (r.1, r.2 <<< (-e).toNat)

/-- A ratio times a power of ten. -/
def Ratio.timesTen (r : Ratio) (e : Int) : Ratio :=
  if 0 ≤ e then (r.1 * Nat.pow 10 e.toNat, r.2) else (r.1, r.2 * Nat.pow 10 (-e).toNat)

/-- The integers next to a ratio, the nearer one first, of two equally near ones the even. -/
def Ratio.neighbours (r : Ratio) : Nat × Nat :=
  let q := r.floor
  let rest := r.1 % r.2
  if r.2 < 2 * rest || (2 * rest = r.2 && q % 2 = 1) then (q + 1, q) else (q, q + 1)

/-- The least significand with all 53 bits. -/
def leastFull : Nat := 0x10000000000000

/-- The number nearest to a ratio above zero. -/
def ofRatio (negative : Bool) (r : Ratio) : Binary64 :=
  let low : Int := max ((Nat.log2 r.1 : Int) - Nat.log2 r.2 - 53) (-1074)
  let e := if (r.timesTwo (-low)).floor < 2 * leastFull then low else low + 1
  let m := (r.timesTwo (-e)).neighbours.1
  let (m, e) := if m = 2 * leastFull then (leastFull, e + 1) else (m, e)
  if 971 < e then .infinite negative else .finite negative m e

/-- The number nearest to `digits * 10 ^ exponent`. -/
def ofDecimal (negative : Bool) (digits : Nat) (exponent : Int) : Binary64 :=
  let magnitude := ((toString digits).length : Int) + exponent
  if digits = 0 || magnitude < -400 then zero negative
  else if 400 < magnitude then .infinite negative
  else ofRatio negative (Ratio.timesTen (digits, 1) exponent)

/-- The size of a finite number as a ratio. -/
def ratioOf (m : Nat) (e : Int) : Ratio := Ratio.timesTwo (m, 1) e

/-- A number times a natural number. -/
def times (x : Binary64) (n : Nat) : Binary64 :=
  match x with
  | .finite s m e => if m * n = 0 then zero s else ofRatio s (ratioOf (m * n) e)
  | x => x

def signed (negative : Bool) (n : Nat) : Int := if negative then -(n : Int) else n

/-- A number without its fraction; zero if it is not finite. -/
def truncated : Binary64 → Int
  | .finite s m e => signed s (ratioOf m e).floor
  | _ => 0

def isZero : Binary64 → Bool
  | .finite _ m _ => m = 0
  | _ => false

/-- Whether a number is below one; what is no number is not. -/
def isBelowOne : Binary64 → Bool
  | .finite s m e => s || (ratioOf m e).floor = 0
  | .infinite s => s
  | .notNumber => false

/-- Whether a number is an integer. -/
def isInt (x : Binary64) (n : Int) : Bool :=
  match x with
  | .finite s m e =>
    let r := ratioOf m e
    signed s r.1 = n * r.2
  | _ => false

/-- Whether two numbers are equal; both zeros are. What is no number is always the same one. -/
def same : Binary64 → Binary64 → Bool
  | .finite s m e, .finite t n f => (m = 0 && n = 0) || (s = t && m = n && e = f)
  | .infinite s, .infinite t => s = t
  | .notNumber, .notNumber => true
  | _, _ => false

/-- Whether a ratio is rounded to `m * 2 ^ e`: it is at most half a place away, below the least full
significand a quarter; the bounds belong to the even ones. -/
def roundsTo (m : Nat) (e : Int) (r : Ratio) : Bool :=
  let (num, den) := r.timesTwo (2 - e)
  let low := if m = leastFull && -1074 < e then 4 * m - 1 else 4 * m - 2
  let high := 4 * m + 2
  if m % 2 = 0 then low * den ≤ num && num ≤ high * den else low * den < num && num < high * den

/-- Where the point of a ratio stands: behind so many digits, or so many zeros before the first. -/
def pointOf (r : Ratio) : Nat → Int
  | 0 => 0
  | fuel + 1 =>
    if r.floor = 0 then pointOf (r.1 * 10, r.2) fuel - 1 else ((toString r.floor).length : Int)

/-- Digits and where the point stands in them. -/
structure Digits where
  digits : List Char
  point : Int
  deriving DecidableEq, Repr

/-- The digits of a number whose last one stands `place` behind the point; no zeros at their end. -/
def Digits.of (n : Nat) (place : Int) : Digits :=
  let ds := (toString n).toList
  ⟨(ds.reverse.dropWhile (· = '0')).reverse, (ds.length : Int) - place⟩

/-- The digits of the nearest number with so many places behind the point that reads back. -/
def digitsAt (m : Nat) (e place : Int) : Option Digits :=
  let (near, far) := ((ratioOf m e).timesTen place).neighbours
  let back (d : Nat) : Bool := roundsTo m e (Ratio.timesTen (d, 1) (-place))
  if back near then some (.of near place) else if back far then some (.of far place) else none

/-- The fewest digits that read back, trying so many more places. -/
def shortest (m : Nat) (e place : Int) : Nat → Digits
  | 0 => ⟨[], 0⟩
  | left + 1 =>
    match digitsAt m e place with
    | some ds => ds
    | none => shortest m e (place + 1) left

/-- An exponent with its sign and two digits at least. -/
def exponentText (e : Int) : String :=
  let ds := toString e.natAbs
  (if e < 0 then "-" else "+") ++ (if ds.length < 2 then "0" ++ ds else ds)

/-- Digits with their point; where it is far off, an exponent is written. -/
def Digits.text (d : Digits) : String :=
  let ds := d.digits
  if d.point ≤ -4 || 16 < d.point then
    String.ofList (ds.take 1) ++ (if ds.length ≤ 1 then "" else "." ++ String.ofList (ds.drop 1)) ++
      "e" ++ exponentText (d.point - 1)
  else if d.point ≤ 0 then "0." ++ String.ofList (List.replicate (-d.point).toNat '0' ++ ds)
  else
    let before := d.point.toNat
    String.ofList (ds.take before ++ List.replicate (before - ds.length) '0') ++ "." ++
      if ds.length ≤ before then "0" else String.ofList (ds.drop before)

/-- The text of a number above zero; 17 digits are always enough. -/
def positiveText (m : Nat) (e : Int) : String :=
  (shortest m e (1 - pointOf (ratioOf m e) 400) 17).text

/-- The text of a number, with the fewest digits that read back as the same. -/
def shown : Binary64 → String
  | .finite s m e => (if s then "-" else "") ++ if m = 0 then "0.0" else positiveText m e
  | .infinite s => if s then "-inf" else "inf"
  | .notNumber => "nan"

end Binary64

end Hotpatch
