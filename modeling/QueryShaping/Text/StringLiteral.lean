import QueryShaping.Text.Surrogate

namespace QueryShaping.StringLiteral

def hexValue? (c : Char) : Option Nat :=
  if c.isDigit then some (c.toNat - '0'.toNat)
  else if 'a' ≤ c ∧ c ≤ 'f' then some (c.toNat - 'a'.toNat + 10)
  else if 'A' ≤ c ∧ c ≤ 'F' then some (c.toNat - 'A'.toNat + 10)
  else none

def hexNumber? (digits : List Char) : Option Nat :=
  (digits.mapM hexValue?).map fun values => values.foldl (fun n v => 16 * n + v) 0

def escape? (c : Char) : Option Char :=
  match c with
  | '"' => some '"'
  | '\\' => some '\\'
  | '/' => some '/'
  | 'b' => some (Char.ofNat 8)
  | 'f' => some (Char.ofNat 12)
  | 'n' => some '\n'
  | 'r' => some '\r'
  | 't' => some '\t'
  | _ => none

structure Style where
  isPlain : Char → Bool
  hasBraces : Bool

/-- The codes of the text up to the closing quote, and what follows the quote, given the part read
of a code in braces. A code in braces is never half a character. -/
def codes? (style : Style) : Option Nat → List Char → Option (List Nat × List Char)
  | _, [] => none
  | some code, c :: rest =>
    if c == '\x7d' then
      if code.isValidChar then
        (codes? style none rest).map fun (codes, left) => (code :: codes, left)
      else none
    else
      match hexValue? c with
      | some v => codes? style (some (16 * code + v)) rest
      | none => none
  | none, '"' :: rest => some ([], rest)
  | none, '\\' :: 'u' :: '{' :: d :: rest =>
    match style.hasBraces, hexValue? d with
    | true, some v => codes? style (some v) rest
    | _, _ => none
  | none, '\\' :: 'u' :: a :: b :: c :: d :: rest =>
    match hexNumber? [a, b, c, d] with
    | some code => (codes? style none rest).map fun (codes, left) => (code :: codes, left)
    | none => none
  | none, '\\' :: e :: rest =>
    match escape? e with
    | some c => (codes? style none rest).map fun (codes, left) => (c.toNat :: codes, left)
    | none => none
  | none, c :: rest =>
    if style.isPlain c then
      (codes? style none rest).map fun (codes, left) => (c.toNat :: codes, left)
    else none

def isLineEnd (c : Char) : Bool :=
  c == '\n' || c == '\r'

def documentStyle : Style :=
  ⟨(!isLineEnd ·), true⟩

/-- The text up to the closing quote, and what follows the quote. A line end is a character like
others where it comes first. -/
def quoted? (cs : List Char) : Option (List Char × List Char) := do
  let (codes, left) ←
    match cs with
    | c :: rest =>
      if isLineEnd c then
        (codes? documentStyle none rest).map fun (codes, left) => (c.toNat :: codes, left)
      else codes? documentStyle none cs
    | [] => none
  some (← Surrogate.joined? codes, left)

def block? : List Char → Option (List Char × List Char)
  | [] => none
  | '"' :: '"' :: '"' :: rest => some ([], rest)
  | '\\' :: '"' :: '"' :: '"' :: rest => do
    let (text, left) ← block? rest
    some ('"' :: '"' :: '"' :: text, left)
  | c :: rest => do
    let (text, left) ← block? rest
    some (c :: text, left)

def linesBy (isEnd : Char → Bool) : List Char → List (List Char)
  | [] => [[]]
  | '\r' :: '\n' :: rest => [] :: linesBy isEnd rest
  | c :: rest =>
    if isEnd c then [] :: linesBy isEnd rest
    else
      match linesBy isEnd rest with
      | [] => [[c]]
      | line :: more => (c :: line) :: more

def lines (cs : List Char) : List (List Char) :=
  linesBy isLineEnd cs

def isIndent (c : Char) : Bool :=
  c == ' ' || c == '\t'

def isBlankLine (line : List Char) : Bool :=
  line.all isIndent

/-- The indentation that the lines after the first share; blank lines have no say. -/
def sharedIndent (later : List (List Char)) : Nat :=
  let indents := (later.filter (!isBlankLine ·)).map fun line => (line.takeWhile isIndent).length
  indents.min?.getD 0

def blockText (chars : List Char) : List Char :=
  match lines chars with
  | [] => []
  | first :: later =>
    let shifted := first :: later.map (·.drop (sharedIndent later))
    let trimmed := ((shifted.dropWhile isBlankLine).reverse.dropWhile isBlankLine).reverse
    List.intercalate ['\n'] trimmed

def read? : List Char → Option (String × List Char)
  | '"' :: '"' :: '"' :: rest => (block? rest).map fun (text, left) =>
    (String.ofList (blockText text), left)
  | '"' :: rest => (quoted? rest).map fun (text, left) => (String.ofList text, left)
  | _ => none

end QueryShaping.StringLiteral
