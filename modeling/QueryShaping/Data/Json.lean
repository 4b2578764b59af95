import QueryShaping.Data.Tree
import QueryShaping.Text.Numeral
import QueryShaping.Text.StringLiteral

namespace QueryShaping

def Numeral.toDecimal (n : Numeral) : Decimal :=
  let fraction := n.fraction.getD []
  let shift : Int :=
    match n.exponent with
    | none => 0
    | some (true, digits) => -(natOfDigits digits : Int)
    | some (false, digits) => (natOfDigits digits : Int)
  ⟨n.negative, natOfDigits (n.whole ++ fraction), shift - (fraction.length : Int)⟩

def Numeral.toInteger? (n : Numeral) : Option Int :=
  let size := natOfDigits n.whole
  if !n.isInteger then none
  else if n.negative then
    if 0 < size ∧ 2 * size ≤ UInt64.size then some (-(size : Int)) else none
  else if size < UInt64.size then some size
  else none

namespace Json

def isBlank (c : Char) : Bool :=
  c == ' ' || c == '\t' || c == '\n' || c == '\r'

def skipBlanks (cs : List Char) : List Char :=
  cs.dropWhile isBlank

def number (n : Numeral) : Data :=
  match n.toInteger? with
  | some i => .integer i
  | none => .real n.toDecimal

def isWordChar (c : Char) : Bool :=
  !(isBlank c || ",:[]\x7b\x7d\"".contains c)

def word? (text : List Char) : Option Data :=
  if text == "null".toList then some .null
  else if text == "true".toList then some (.boolean true)
  else if text == "false".toList then some (.boolean false)
  else
    match Numeral.read? text with
    | some (n, []) => some (number n)
    | _ => none

def stringStyle : StringLiteral.Style :=
  ⟨(32 ≤ ·.toNat), false⟩

/-- A string after its opening quote, and what follows it. One with half a character is garbled. -/
def string? (cs : List Char) : Option (Option String × List Char) :=
  (StringLiteral.codes? stringStyle none cs).map fun (codes, left) =>
    ((Surrogate.joined? codes).map String.ofList, left)

def scalar? (cs : List Char) : Option (Data × List Char) :=
  match cs with
  | '"' :: rest => (string? rest).map fun (text, left) => (text.elim .garbled .string, left)
  | cs => (word? (cs.takeWhile isWordChar)).map fun d => (d, cs.dropWhile isWordChar)

def key? (cs : List Char) : Option (Option String × List Char) :=
  match cs with
  | '"' :: rest => do
    let (text, left) ← string? rest
    match skipBlanks left with
    | ':' :: left => some (text, left)
    | _ => none
  | _ => none

mutual

def value? : Nat → List Char → Option (Data × List Char)
  | 0, _ => none
  | fuel + 1, cs =>
    match skipBlanks cs with
    | '[' :: rest =>
      match skipBlanks rest with
      | ']' :: left => some (.sequence [], left)
      | cs => (items? fuel cs).map fun (items, left) => (.sequence items, left)
    | '{' :: rest =>
      match skipBlanks rest with
      | '}' :: left => some (.mapping [], left)
      | cs => (entries? fuel cs).map fun (entries, left) => (.ofEntries entries, left)
    | cs => scalar? cs

def items? : Nat → List Char → Option (List Data × List Char)
  | 0, _ => none
  | fuel + 1, cs => do
    let (item, left) ← value? fuel cs
    match skipBlanks left with
    | ']' :: rest => some ([item], rest)
    | ',' :: rest => (items? fuel rest).map fun (items, left) => (item :: items, left)
    | _ => none

def entries? : Nat → List Char → Option (List (Option String × Data) × List Char)
  | 0, _ => none
  | fuel + 1, cs => do
    let (key, left) ← key? (skipBlanks cs)
    let (item, left) ← value? fuel left
    match skipBlanks left with
    | '}' :: rest => some ([(key, item)], rest)
    | ',' :: rest =>
      (entries? fuel rest).map fun (entries, left) => ((key, item) :: entries, left)
    | _ => none

end

/-- The data that makes up a whole text. A text is never as deep as it is long. -/
def read? (text : String) : Option Data := do
  let cs := text.toList
  let (d, left) ← value? (2 * cs.length + 2) cs
  if (skipBlanks left).isEmpty then some d else none

end Json

end QueryShaping
