import QueryShaping.Text.StringLiteral

namespace QueryShaping.Yaml

/-- A character and its place: how many characters and how many line feeds stand before it, and how
many characters since the last line feed. -/
structure Spot where
  char : Char
  index : Nat
  line : Nat
  column : Nat

namespace Spot

def placed (index line column : Nat) : List Char → List Spot
  | [] => []
  | c :: rest =>
    ⟨c, index, line, column⟩ ::
      if c == '\n' then placed (index + 1) (line + 1) 0 rest
      else placed (index + 1) line (column + 1) rest

def ofText (text : String) : List Spot :=
  placed 0 0 0 (text.toList.takeWhile (· != Char.ofNat 0))

end Spot

def isBlank (c : Char) : Bool :=
  c == ' ' || c == '\t'

def isSpace (c : Char) : Bool :=
  isBlank c || StringLiteral.isLineEnd c

def endsWord (text : List Spot) : Bool :=
  text.head?.all fun s => isSpace s.char

def startsDocumentMark : List Spot → Bool
  | a :: b :: c :: rest =>
    a.column == 0 && "-.".contains a.char && a.char == b.char && b.char == c.char && endsWord rest
  | _ => false

end QueryShaping.Yaml
