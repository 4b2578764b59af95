namespace QueryShaping

structure Decimal where
  negative : Bool
  coefficient : Nat
  exponent : Int
deriving DecidableEq

structure Binary where
  mantissa : Nat
  exponent : Int
deriving DecidableEq

def twoTo (n : Nat) : Nat :=
  Nat.pow 2 n

def tenTo (n : Nat) : Nat :=
  Nat.pow 10 n

namespace Decimal

def roundedQuotient (n d : Nat) : Nat :=
  let q := n / d
  let r := n % d
  if 2 * r < d then q else if d < 2 * r then q + 1 else q + q % 2

/-- The double nearest to `n / d`, out of range or not. Below the normal doubles the exponent
stays at its least value and digits are lost instead. -/
def nearestBinary (n d : Nat) : Binary :=
  let guess : Int := (n.log2 : Int) - (d.log2 : Int) - 52
  let scaled (e : Int) : Nat × Nat := (n * twoTo (-e).toNat, d * twoTo e.toNat)
  let fits (e : Int) : Bool := (scaled e).1 < (scaled e).2 * twoTo 53
  let e := max (if fits (guess - 1) then guess - 1 else guess) (-1074)
  let m := roundedQuotient (scaled e).1 (scaled e).2
  if m = twoTo 53 then ⟨twoTo 52, e + 1⟩ else ⟨m, e⟩

def magnitude? (d : Decimal) : Option Binary :=
  let places : Int := (toString d.coefficient).length + d.exponent
  if d.coefficient = 0 ∨ places < -400 then some ⟨0, -1074⟩
  else if places > 400 then none
  else
    let b := nearestBinary (d.coefficient * tenTo d.exponent.toNat) (tenTo (-d.exponent).toNat)
    if b.exponent ≤ 971 then some b else none

end Decimal

namespace Binary

def firstPlace (b : Binary) : Int :=
  let n := b.mantissa * tenTo 400 * twoTo b.exponent.toNat / twoTo (-b.exponent).toNat
  ((toString n).length : Int) - 401

/-- The digits on the grid `10 ^ k` that round to a number: of two the nearer, of two as near the
even one. The ends of the interval of numbers that round to it count if its mantissa is even; the
lower end is nearer where the mantissa is the least one. -/
def digitsAt? (b : Binary) (k : Int) : Option Nat :=
  let unit := tenTo k.toNat * twoTo (2 - b.exponent).toNat
  let half := twoTo (b.exponent - 2).toNat * tenTo (-k).toNat
  let middle := 4 * b.mantissa * half
  let gap := if b.mantissa = twoTo 52 ∧ b.exponent > -1074 then 1 else 2
  let lowest := (4 * b.mantissa - gap) * half
  let highest := (4 * b.mantissa + 2) * half
  let inside (x : Nat) : Bool :=
    if b.mantissa % 2 = 0 then lowest ≤ x && x ≤ highest else lowest < x && x < highest
  let d := middle / unit
  let below := middle - d * unit
  let above := (d + 1) * unit - middle
  match inside (d * unit), inside ((d + 1) * unit) with
  | true, true => some (if below < above then d else if above < below then d + 1 else d + d % 2)
  | true, false => some d
  | false, true => some (d + 1)
  | false, false => none

/-- The fewest digits that lead back to a number, with the power of ten of the last one. The first
grid tried is the one above the first digit, since rounding up may reach it. -/
def shortest (b : Binary) : Nat × Int :=
  let p := b.firstPlace
  let grids : List Int := (List.range 18).map fun i => p + 1 - (i : Nat)
  (grids.findSome? fun k => (b.digitsAt? k).map fun d => (d, k)).getD (0, 0)

end Binary

def positional (digits : Nat) (k : Int) : String :=
  if 0 ≤ k then toString (digits * tenTo k.toNat) ++ ".0"
  else
    let places := (-k).toNat
    let all := (toString digits).toList
    let padded := List.replicate (places + 1 - all.length) '0' ++ all
    let point := padded.length - places
    String.ofList (padded.take point ++ '.' :: padded.drop point)

def scientific (digits : Nat) (exponent : Int) : String :=
  let sign := if exponent < 0 then "" else "+"
  match (toString digits).toList with
  | first :: other :: rest =>
    String.ofList (first :: '.' :: other :: rest) ++ "e" ++ sign ++ toString exponent
  | _ => toString digits ++ "e" ++ sign ++ toString exponent

def isPositional (exponent : Int) : Bool :=
  -5 ≤ exponent && exponent ≤ 15

def Binary.shown (b : Binary) : String :=
  let (digits, k) := b.shortest
  let exponent := k + (toString digits).length - 1
  if isPositional exponent then positional digits k else scientific digits exponent

def Decimal.shown (d : Decimal) : String :=
  let sign := if d.negative then "-" else ""
  match d.magnitude? with
  | none => sign ++ "inf"
  | some b => if b.mantissa = 0 then sign ++ "0.0" else sign ++ b.shown

end QueryShaping
