import QueryShaping.Document.Name
import QueryShaping.Text.Numeral
import QueryShaping.Text.StringLiteral

namespace QueryShaping

inductive Lexeme where
  | mark (c : Char)
  | ellipsis
  | name (text : Name)
  | int (digits : String)
  | float (digits : String)
  | string (text : String)
  | comma
  | ignored
deriving DecidableEq

/-- A lexeme, the number of characters before it, and whether a comma follows it, blanks and
comments aside. -/
structure Token where
  lexeme : Lexeme
  position : Nat
  meetsComma : Bool

namespace Lexeme

def isBlank (c : Char) : Bool :=
  c == ' ' || c == '\t' || c == '\n' || c == '\r' || c.toNat == 0xFEFF

def isMark (c : Char) : Bool :=
  "!$&():=@[]\x7b|\x7d".contains c

def endsNumber : List Char → Bool
  | c :: _ => !(c.isDigit || Name.isStart c || c == '.')
  | [] => true

def number? (cs : List Char) : Option (Lexeme × List Char) := do
  let (numeral, rest) ← Numeral.read? cs
  if endsNumber rest then
    let text := String.ofList (cs.take (cs.length - rest.length))
    some (if numeral.isInteger then .int text else .float text, rest)
  else none

def read? : List Char → Option (Lexeme × List Char)
  | [] => none
  | c :: rest =>
    if isBlank c then some (.ignored, rest.dropWhile isBlank)
    else if c == ',' then some (.comma, rest)
    else if c == '#' then some (.ignored, rest.dropWhile (!StringLiteral.isLineEnd ·))
    else if isMark c then some (.mark c, rest)
    else if Name.isStart c then
      some (.name (String.ofList (c :: rest.takeWhile Name.isPart)), rest.dropWhile Name.isPart)
    else if c == '"' then
      (StringLiteral.read? (c :: rest)).map fun (text, left) => (.string text, left)
    else if c == '.' then
      match rest with
      | '.' :: '.' :: left => some (.ellipsis, left)
      | _ => none
    else number? (c :: rest)

end Lexeme

namespace Token

/-- All tokens of a text whose first character stands at a position. Whether commas follow them is
left open. -/
def scan (position : Nat) (cs : List Char) : Option (List Token) :=
  match cs with
  | [] => some []
  | c :: more =>
    match Lexeme.read? (c :: more) with
    | none => none
    | some (lexeme, rest) =>
      if rest.length < (c :: more).length then
        let next := position + ((c :: more).length - rest.length)
        (scan next rest).map (⟨lexeme, position, false⟩ :: ·)
      else none
termination_by cs.length
decreasing_by assumption

def startsWithComma : List Token → Bool
  | [] => false
  | t :: rest => t.lexeme == .comma || t.lexeme == .ignored && startsWithComma rest

def significant : List Token → List Token
  | [] => []
  | t :: rest =>
    if t.lexeme == .comma || t.lexeme == .ignored then significant rest
    else { t with meetsComma := startsWithComma rest } :: significant rest

end Token

end QueryShaping
