namespace QueryShaping.Blank

def ranges : List (Nat × Nat) :=
  [(9, 13), (0x20, 0x20), (0x85, 0x85), (0xA0, 0xA0), (0x1680, 0x1680), (0x2000, 0x200A),
    (0x2028, 0x2029), (0x202F, 0x202F), (0x205F, 0x205F), (0x3000, 0x3000)]

def contains (c : Char) : Bool :=
  ranges.any fun (first, last) => first ≤ c.toNat && c.toNat ≤ last

def isLineEnd (c : Char) : Bool :=
  10 ≤ c.toNat && c.toNat ≤ 13 || c.toNat == 0x85 || c.toNat == 0x2028 || c.toNat == 0x2029

end QueryShaping.Blank
