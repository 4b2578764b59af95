import QueryShaping.Data.Tree
import QueryShaping.Data.Yaml.Scalar

namespace QueryShaping.Yaml

inductive Token where
  | documentStart
  | documentEnd
  | blockSequence
  | blockMapping
  | blockEnd
  | dash
  | key
  | value
  | openBracket
  | closeBracket
  | openBrace
  | closeBrace
  | comma
  | anchor
  | tag
  | scalar (d : Data)

structure Candidate where
  position : Nat
  spot : Spot
  isRequired : Bool

def Candidate.isOver (k : Candidate) (s : Spot) : Bool :=
  k.spot.line < s.line || k.spot.index + 1024 < s.index

/-- What has been read of a text: its tokens, the latest first; the columns of open block
collections, the innermost first; what may be a key, in the innermost brackets and in those around
them; whether a key may come next; and the index right after the last quoted scalar. -/
structure Layout where
  tokens : List Token := []
  columns : List Nat := []
  candidate : Option Candidate := none
  outer : List (Option Candidate) := []
  allowsKey : Bool := true
  quoteEnd : Option Nat := none

namespace Layout

def inBrackets (l : Layout) : Bool :=
  !l.outer.isEmpty

def depth (l : Layout) : Nat :=
  (l.columns.head?.map (· + 1)).getD 0

def push (l : Layout) (t : Token) : Layout :=
  { l with tokens := t :: l.tokens }

def insert (l : Layout) (n : Nat) (t : Token) : Layout :=
  let later := l.tokens.length - n
  { l with tokens := l.tokens.take later ++ t :: l.tokens.drop later }

def refresh? (l : Layout) (s : Spot) : Option Layout :=
  let isOver (k : Option Candidate) := k.any (·.isOver s)
  let isMissed (k : Option Candidate) := isOver k && k.any (·.isRequired)
  let kept (k : Option Candidate) := if isOver k then none else k
  if isMissed l.candidate || l.outer.any isMissed then none
  else some { l with candidate := kept l.candidate, outer := l.outer.map kept }

def dropCandidate? (l : Layout) : Option Layout :=
  if l.candidate.any (·.isRequired) then none else some { l with candidate := none }

/-- Takes what starts here for a candidate, if a key may come next; none may come right after. -/
def noteCandidate? (l : Layout) (s : Spot) : Option Layout :=
  if l.allowsKey then
    let isRequired := l.inBrackets && l.depth == s.column + 1
    l.dropCandidate?.map fun l =>
      { l with candidate := some ⟨l.tokens.length, s, isRequired⟩, allowsKey := false }
  else some l

def openBlock (l : Layout) (column n : Nat) (t : Token) : Layout :=
  if l.inBrackets || column < l.depth then l
  else { l.insert n t with columns := column :: l.columns }

def closeBlocks (l : Layout) (isClosed : Nat → Bool) : Layout :=
  if l.inBrackets then l
  else
    let ends := (l.columns.takeWhile isClosed).map fun _ => Token.blockEnd
    { l with tokens := ends ++ l.tokens, columns := l.columns.dropWhile isClosed }

def startsBrackets? (l : Layout) (s : Spot) (t : Token) : Option Layout :=
  (l.noteCandidate? s).map fun l =>
    { l.push t with candidate := none, outer := l.candidate :: l.outer, allowsKey := true }

def endsBrackets? (l : Layout) (t : Token) : Option Layout :=
  l.dropCandidate?.map fun l =>
    { l.push t with
      candidate := l.outer.head?.getD none, outer := l.outer.drop 1, allowsKey := false }

def comma? (l : Layout) : Option Layout :=
  l.dropCandidate?.map fun l => { l.push .comma with allowsKey := true }

def startsBlock? (l : Layout) (s : Spot) (block t : Token) : Option Layout :=
  if l.allowsKey then
    (l.openBlock s.column l.tokens.length block).dropCandidate?.map (·.push t)
  else none

def dash? (l : Layout) (s : Spot) : Option Layout :=
  if l.inBrackets then none else l.startsBlock? s .blockSequence .dash

def questionMark? (l : Layout) (s : Spot) : Option Layout :=
  if l.inBrackets then l.dropCandidate?.map fun l => { l.push .key with allowsKey := false }
  else l.startsBlock? s .blockMapping .key

/-- A colon. It turns the candidate into a key, or stands for itself where a key may. -/
def colon? (l : Layout) (s : Spot) : Option Layout :=
  match l.candidate with
  | some k =>
    let l := (l.insert k.position .key).openBlock k.spot.column k.position .blockMapping
    some { l.push .value with candidate := none, allowsKey := false }
  | none =>
    if l.inBrackets then some { l.push .value with allowsKey := false }
    else if l.allowsKey then
      some ((l.openBlock s.column l.tokens.length .blockMapping).push .value)
    else none

def documentMark? (l : Layout) (t : Token) : Option Layout :=
  (l.closeBlocks fun _ => true).dropCandidate?.map fun l => { l.push t with allowsKey := false }

def plain? (l : Layout) (s : Spot) (rest : List Spot) : Option (Layout × List Spot) := do
  let l ← l.noteCandidate? s
  let (p, left) ← Yaml.plain? ⟨l.inBrackets, l.depth⟩ (s :: rest)
  some ({ l.push (.scalar (.plain p.text)) with allowsKey := p.endsLine }, left)

def quoted? (l : Layout) (s : Spot) (rest : List Spot) : Option (Layout × List Spot) := do
  let l ← l.noteCandidate? s
  let (text, left) ← Yaml.quoted? s.char rest
  some ({ l.push (.scalar (.string text)) with quoteEnd := left.head?.map (·.index) }, left)

def isNameChar (c : Char) : Bool :=
  c.isAlphanum || c == '_' || c == '-'

def anchor? (l : Layout) (s : Spot) (rest : List Spot) : Option (Layout × List Spot) := do
  let l ← l.noteCandidate? s
  let left := rest.dropWhile fun s => isNameChar s.char
  let isEnd := endsWord left || left.head?.any fun s => "?:,]\x7d%@`".contains s.char
  if left.length < rest.length && isEnd then some (l.push .anchor, left) else none

def isTagChar (c : Char) : Bool :=
  isNameChar c || c == apostrophe || ";/?:@&=+$,.!~*()[]%".contains c

def tag? (l : Layout) (s : Spot) (rest : List Spot) : Option (Layout × List Spot) := do
  let l ← l.noteCandidate? s
  let left := rest.dropWhile fun s => isTagChar s.char
  if endsWord left then some (l.push .tag, left) else none

def separates (l : Layout) (s : Spot) (rest : List Spot) : Bool :=
  isSeparated l.inBrackets rest || l.inBrackets && l.quoteEnd == some s.index

def next? (l : Layout) (s : Spot) (rest : List Spot) : Option (Layout × List Spot) :=
  let here (l : Option Layout) := l.map fun l => (l, rest)
  if startsDocumentMark (s :: rest) then
    (l.documentMark? (if s.char == '-' then .documentStart else .documentEnd)).map fun l =>
      (l, rest.drop 2)
  else if isQuote s.char then l.quoted? s rest
  else if "*%@`".contains s.char || (!l.inBrackets && "|>".contains s.char) then none
  else
    match s.char with
    | '[' => here (l.startsBrackets? s .openBracket)
    | '{' => here (l.startsBrackets? s .openBrace)
    | ']' => here (l.endsBrackets? .closeBracket)
    | '}' => here (l.endsBrackets? .closeBrace)
    | ',' => here l.comma?
    | '-' => if endsWord rest then here (l.dash? s) else l.plain? s rest
    | '?' => if endsWord rest then here (l.questionMark? s) else l.plain? s rest
    | ':' => if l.separates s rest then here (l.colon? s) else l.plain? s rest
    | '&' => l.anchor? s rest
    | '!' => l.tag? s rest
    | _ => l.plain? s rest

/-- Passes over spaces and comments. Outside brackets a key may come after a line end; where one may
come, a tab is no space. -/
def skip (inBrackets isComment allowsKey : Bool) : List Spot → Bool × List Spot
  | [] => (allowsKey, [])
  | s :: rest =>
    if StringLiteral.isLineEnd s.char then skip inBrackets false (allowsKey || !inBrackets) rest
    else if isComment || s.char == '#' then skip inBrackets true allowsKey rest
    else if s.char == ' ' || (s.char == '\t' && (inBrackets || !allowsKey)) then
      skip inBrackets false allowsKey rest
    else (allowsKey, s :: rest)

def readAll? : Nat → Layout → List Spot → Option (List Token)
  | 0, _, _ => none
  | fuel + 1, l, text =>
    let (allowsKey, text) := skip l.inBrackets false l.allowsKey text
    let l := { l with allowsKey := allowsKey }
    match text with
    | [] => some (l.closeBlocks fun _ => true).tokens.reverse
    | s :: rest => do
      let l ← l.refresh? s
      let (l, left) ← (l.closeBlocks (s.column < ·)).next? s rest
      readAll? fuel l left

end Layout

def Token.ofText? (text : String) : Option (List Token) :=
  let spots := Spot.ofText text
  Layout.readAll? (spots.length + 1) {} spots

end QueryShaping.Yaml
