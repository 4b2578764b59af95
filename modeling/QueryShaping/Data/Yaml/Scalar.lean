import QueryShaping.Data.Yaml.Spot

namespace QueryShaping.Yaml

def lineEnds (run : List Char) : Nat :=
  (StringLiteral.lines run).length - 1

/-- What a run of spaces inside a scalar stands for: itself on one line, a blank in place of one
line end, and a line feed for each line end after the first. -/
def folded (run : List Char) : List Char :=
  match lineEnds run with
  | 0 => run
  | 1 => [' ']
  | n + 1 => List.replicate n '\n'

def foldedText : List Char → List Char
  | [] => []
  | c :: rest =>
    if isSpace c then folded (c :: rest.takeWhile isSpace) ++ foldedText (rest.dropWhile isSpace)
    else c :: foldedText rest
termination_by cs => cs.length
decreasing_by
  · exact Nat.lt_succ_of_le (List.dropWhile_sublist isSpace).length_le
  · exact Nat.lt_succ_self rest.length

def apostrophe : Char :=
  Char.ofNat 39

def escapes : List (Char × Nat) :=
  [('0', 0), ('a', 7), ('b', 8), ('t', 9), ('\t', 9), ('n', 10), ('v', 11), ('f', 12), ('r', 13),
    ('e', 27), (' ', 32), ('"', 34), (apostrophe, 39), ('\\', 92), ('N', 0x85), ('_', 0xA0),
    ('L', 0x2028), ('P', 0x2029)]

def escape? (c : Char) : Option Char :=
  (escapes.lookup c).map Char.ofNat

def codeLength? (c : Char) : Option Nat :=
  [('x', 2), ('u', 4), ('U', 8)].lookup c

def coded? (digits : List Char) : Option Char := do
  let code ← StringLiteral.hexNumber? digits
  if code.isValidChar then some (Char.ofNat code) else none

/-- What the characters between double quotes stand for. A backslash before a line end takes it
away, and the spaces after it as well. -/
def doubleQuoted? : List Char → Option (List Char)
  | [] => some []
  | '\\' :: e :: rest =>
    if StringLiteral.isLineEnd e then
      let gap := lineEnds (e :: rest.takeWhile isSpace)
      (doubleQuoted? (rest.dropWhile isSpace)).map (List.replicate (gap - 1) '\n' ++ ·)
    else
      match codeLength? e with
      | some n =>
        if n ≤ rest.length then do
          let c ← coded? (rest.take n)
          (doubleQuoted? (rest.drop n)).map (c :: ·)
        else none
      | none => do
        let c ← escape? e
        (doubleQuoted? rest).map (c :: ·)
  | c :: rest =>
    if isSpace c then
      (doubleQuoted? (rest.dropWhile isSpace)).map (folded (c :: rest.takeWhile isSpace) ++ ·)
    else (doubleQuoted? rest).map (c :: ·)
termination_by cs => cs.length
decreasing_by
  · have := (List.dropWhile_sublist isSpace (l := rest)).length_le
    simp only [List.length_cons]
    omega
  · simp only [List.length_cons, List.length_drop]
    omega
  · simp only [List.length_cons]
    omega
  · have := (List.dropWhile_sublist isSpace (l := rest)).length_le
    simp only [List.length_cons]
    omega
  · exact Nat.lt_succ_self rest.length

def halved : List Char → List Char
  | c :: d :: rest =>
    if c == apostrophe && d == apostrophe then c :: halved rest else c :: halved (d :: rest)
  | cs => cs

def singleQuoted (cs : List Char) : List Char :=
  halved (foldedText cs)

def isQuote (c : Char) : Bool :=
  c == '"' || c == apostrophe

def takesNext (quote : Char) (c : Char) (next : Char) : Bool :=
  if quote == '"' then c == '\\' else c == quote && next == quote

def quotedSpan? (quote : Char) : List Spot → Option (List Char × List Spot)
  | [] => none
  | [s] => if s.char == quote then some ([], []) else none
  | s :: next :: rest =>
    if startsDocumentMark (s :: next :: rest) then none
    else if takesNext quote s.char next.char then
      (quotedSpan? quote rest).map fun (span, left) => (s.char :: next.char :: span, left)
    else if s.char == quote then some ([], next :: rest)
    else (quotedSpan? quote (next :: rest)).map fun (span, left) => (s.char :: span, left)

def quoted? (quote : Char) (text : List Spot) : Option (String × List Spot) := do
  let (span, left) ← quotedSpan? quote text
  let chars ← if quote == '"' then doubleQuoted? span else some (singleQuoted span)
  some (String.ofList chars, left)

/-- Where a plain scalar stands: whether in brackets, and the least column where it may go on. -/
structure Surroundings where
  inBrackets : Bool
  column : Nat

def isMark (c : Char) : Bool :=
  ",[]\x7b\x7d".contains c

def isSeparated (inBrackets : Bool) (text : List Spot) : Bool :=
  endsWord text || inBrackets && text.head?.any fun s => isMark s.char || s.char == '?'

def Surroundings.endsAt (u : Surroundings) (s : Spot) (rest : List Spot) : Bool :=
  (s.char == ':' && isSeparated u.inBrackets rest) || (u.inBrackets && isMark s.char)

def Surroundings.endsAfterSpaces (u : Surroundings) (s : Spot) (rest : List Spot) : Bool :=
  s.char == '#' || startsDocumentMark (s :: rest) || (!u.inBrackets && s.column < u.column)

inductive Gap where
  | none
  | blanks
  | lines

/-- The characters of a plain scalar with the spaces after it, and what follows. A tab may not
indent a line too little. -/
def plainSpan? (u : Surroundings) : Gap → List Spot → Option (List Char × List Spot)
  | _, [] => some ([], [])
  | gap, s :: rest =>
    let more (gap : Gap) :=
      (plainSpan? u gap rest).map fun (span, left) => (s.char :: span, left)
    if StringLiteral.isLineEnd s.char then more .lines
    else if isBlank s.char then
      match gap with
      | .lines => if s.char == '\t' && s.column < u.column then none else more .lines
      | _ => more .blanks
    else
      let ends :=
        match gap with
        | .none => false
        | _ => u.endsAfterSpaces s rest
      if ends || u.endsAt s rest then some ([], s :: rest) else more .none

structure Plain where
  text : String
  endsLine : Bool

def Plain.ofSpan (span : List Char) : Plain :=
  let tail := span.reverse.takeWhile isSpace
  ⟨String.ofList (foldedText (span.take (span.length - tail.length))),
    tail.any StringLiteral.isLineEnd⟩

def plain? (u : Surroundings) (text : List Spot) : Option (Plain × List Spot) :=
  (plainSpan? u .none text).map fun (span, left) => (Plain.ofSpan span, left)

end QueryShaping.Yaml
