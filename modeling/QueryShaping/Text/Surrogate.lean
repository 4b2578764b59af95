namespace QueryShaping.Surrogate

def isHigh (code : Nat) : Bool :=
  0xD800 ≤ code && code < 0xDC00

def isLow (code : Nat) : Bool :=
  0xDC00 ≤ code && code < 0xE000

def paired (high low : Nat) : Char :=
  Char.ofNat (0x10000 + (high - 0xD800) * 0x400 + (low - 0xDC00))

/-- The characters that codes stand for; none if a half stands alone. -/
def joined? : List Nat → Option (List Char)
  | [] => some []
  | [code] => if code.isValidChar then some [Char.ofNat code] else none
  | code :: next :: rest =>
    if isHigh code && isLow next then (joined? rest).map (paired code next :: ·)
    else if code.isValidChar then (joined? (next :: rest)).map (Char.ofNat code :: ·)
    else none

end QueryShaping.Surrogate
