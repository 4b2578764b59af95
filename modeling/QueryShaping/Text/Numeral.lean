namespace QueryShaping

/-- A numeral by its digits. An exponent has a flag for its minus sign. -/
structure Numeral where
  negative : Bool
  whole : List Char
  fraction : Option (List Char)
  exponent : Option (Bool × List Char)

namespace Numeral

def isInteger (n : Numeral) : Bool :=
  n.fraction.isNone && n.exponent.isNone

def natOfDigits (digits : List Char) : Nat :=
  digits.foldl (fun n c => 10 * n + (c.toNat - '0'.toNat)) 0

def digits? (cs : List Char) : Option (List Char × List Char) :=
  match cs.takeWhile Char.isDigit with
  | [] => none
  | ds => some (ds, cs.dropWhile Char.isDigit)

def whole? : List Char → Option (List Char × List Char)
  | '0' :: rest => some (['0'], rest)
  | cs => digits? cs

def fraction? : List Char → Option (Option (List Char) × List Char)
  | '.' :: rest => (digits? rest).map fun (ds, left) => (some ds, left)
  | cs => some (none, cs)

def signed? : List Char → Option ((Bool × List Char) × List Char)
  | '-' :: rest => (digits? rest).map fun (ds, left) => ((true, ds), left)
  | '+' :: rest => (digits? rest).map fun (ds, left) => ((false, ds), left)
  | cs => (digits? cs).map fun (ds, left) => ((false, ds), left)

def exponent? : List Char → Option (Option (Bool × List Char) × List Char)
  | [] => some (none, [])
  | c :: rest =>
    if c == 'e' || c == 'E' then (signed? rest).map fun (e, left) => (some e, left)
    else some (none, c :: rest)

def unsigned? (negative : Bool) (cs : List Char) : Option (Numeral × List Char) := do
  let (whole, cs) ← whole? cs
  let (fraction, cs) ← fraction? cs
  let (exponent, cs) ← exponent? cs
  some (⟨negative, whole, fraction, exponent⟩, cs)

def read? : List Char → Option (Numeral × List Char)
  | '-' :: rest => unsigned? true rest
  | cs => unsigned? false cs

end Numeral

end QueryShaping
