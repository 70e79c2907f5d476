/-
Numbers of the template language: binary floating point with 53 bits. A decimal is read as the nearest
such number, a tie going to the even mantissa; a number is written with the fewest digits that read
back as it, the nearest of those, and never with an exponent.
-/

namespace TypedTemplate.Decimal

/-- `mantissa * 2 ^ exponent` with a sign, or an infinity. -/
inductive Double where
  | finite (negative : Bool) (mantissa : Nat) (exponent : Int)
  | infinite (negative : Bool)
  deriving Repr, DecidableEq, Inhabited

/-- A quotient rounded to the nearest whole number, a tie to the even one. -/
def roundHalfEven (num den : Nat) : Nat :=
  let q := num / den
  let r := 2 * (num % den)
  if r < den then q
  else if den < r then q + 1
  else if q % 2 = 0 then q else q + 1

/-- `a * 2 ^ e` for `e` above zero, else `a`. -/
def scaleUp (a : Nat) (e : Int) : Nat := a * Nat.pow 2 e.toNat

/-- The exponent of the highest bit of `num / den`. -/
def highBit (num den : Nat) : Int :=
  let e : Int := (Nat.log2 num : Int) - (Nat.log2 den : Int)
  if scaleUp num (-e) < scaleUp den e then e - 1 else e

/-- The number nearest to `num / den`. -/
def nearest (negative : Bool) (num den : Nat) : Double :=
  if num = 0 then .finite negative 0 0
  else
    let q := max (highBit num den - 52) (-1074)
    let m := roundHalfEven (scaleUp num (-q)) (scaleUp den q)
    let (m, q) := if m = Nat.pow 2 53 then (Nat.pow 2 52, q + 1) else (m, q)
    if 971 < q then .infinite negative else .finite negative m q

/-- The whole number that decimal digits spell. -/
def natOfDigits (ds : List Char) : Nat :=
  ds.foldl (fun n c => 10 * n + (c.toNat - '0'.toNat)) 0

/-- The number that `-? digits (. digits)?` spells. -/
def ofText (s : String) : Double :=
  let (negative, cs) :=
    match s.toList with
    | '-' :: rest => (true, rest)
    | rest => (false, rest)
  let whole := cs.takeWhile Char.isDigit
  let fraction := (cs.drop (whole.length + 1)).takeWhile Char.isDigit
  nearest negative (natOfDigits (whole ++ fraction)) (Nat.pow 10 fraction.length)

/-! ## Shortest digits -/

/-- `k` with `10 ^ (k - 1) ≤ num / den < 10 ^ k`, for a quotient above zero. -/
def magnitude (num den : Nat) : Int :=
  if den ≤ num then ((Nat.toDigits 10 (num / den)).length : Int)
  else
    let rec below (fuel : Nat) (num : Nat) (k : Int) : Int :=
      match fuel with
      | 0 => k
      | fuel + 1 => if den ≤ num * 10 then k else below fuel (num * 10) (k - 1)
    below 400 num 0

/-- The quotients between which a decimal reads back as `m * 2 ^ q`, and that value itself, all over
one denominator, and whether the ends belong to it. -/
structure Interval where
  low : Nat
  value : Nat
  high : Nat
  den : Nat
  closed : Bool

def interval (m : Nat) (q : Int) : Interval :=
  let unit := scaleUp 1 (q - 2)
  let lower := if m = Nat.pow 2 52 ∧ q > -1074 then 4 * m - 1 else 4 * m - 2
  ⟨lower * unit, 4 * m * unit, (4 * m + 2) * unit, scaleUp 1 (2 - q), m % 2 == 0⟩

/-- Whether `d * 10 ^ p` lies in an interval. -/
def Interval.holds (i : Interval) (d : Nat) (p : Int) : Bool :=
  let x := d * Nat.pow 10 p.toNat * i.den
  let scale := Nat.pow 10 (-p).toNat
  if i.closed then i.low * scale ≤ x && x ≤ i.high * scale
  else i.low * scale < x && x < i.high * scale

/-- The value's neighbour on the grid of `10 ^ p` that reads back, the nearer of two and the upper of
two that are equally near. -/
def Interval.onGrid? (i : Interval) (p : Int) : Option Nat :=
  let num := i.value * Nat.pow 10 (-p).toNat
  let den := i.den * Nat.pow 10 p.toNat
  let d := num / den
  match i.holds d p, i.holds (d + 1) p with
  | true, true => some (if 2 * (num % den) < den then d else d + 1)
  | true, false => some d
  | false, true => some (d + 1)
  | false, false => none

/-- The first grid, from `n` digits on, with a point that reads back. A power of ten above the value is
written with one digit less. -/
def Interval.shortest (i : Interval) (k : Int) : Nat → Nat → Nat × Int
  | 0, n => (i.value / i.den, k - n)
  | fuel + 1, n =>
    match i.onGrid? (k - n) with
    | some d => if d = Nat.pow 10 n then (d / 10, k - n + 1) else (d, k - n)
    | none => i.shortest k fuel (n + 1)

/-- `d * 10 ^ p` without an exponent. -/
def positional (d : Nat) (p : Int) : String :=
  let ds := Nat.toDigits 10 d
  if 0 ≤ p then String.ofList (ds ++ List.replicate p.toNat '0')
  else
    let places := (-p).toNat
    let ds := List.replicate (places + 1 - ds.length) '0' ++ ds
    String.ofList (ds.take (ds.length - places)) ++ "." ++
      String.ofList (ds.drop (ds.length - places))

namespace Double

def isZero : Double → Bool
  | .finite _ m _ => m == 0
  | .infinite _ => false

/-- The fewest digits that read back, without an exponent. -/
def render : Double → String
  | .infinite negative => if negative then "-inf" else "inf"
  | .finite negative m q =>
    let sign := if negative then "-" else ""
    if m = 0 then sign ++ "0"
    else
      let i := interval m q
      let (d, p) := i.shortest (magnitude i.value i.den) 17 1
      sign ++ positional d p

/-- The number in generated code, where both zeros are `0`. -/
def code (x : Double) : String := if x.isZero then "0" else x.render

end Double

end TypedTemplate.Decimal
