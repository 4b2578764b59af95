import QueryShaping.Text.Blank
import QueryShaping.Text.StringLiteral
import QueryShaping.Text.Width

namespace QueryShaping

inductive SourceFault where
  | strayMark
  | strayName
  | malformedDefinition
  | malformedText
  | noDefinition
deriving DecidableEq

def SourceFault.message : SourceFault → String
  | .strayMark => "expected a StringValue, Name or OperationDefinition"
  | .strayName => "expected definition"
  | .malformedDefinition => "malformed definition"
  | .malformedText => "malformed text"
  | .noDefinition => "expected at least one definition"

structure Diagnostic where
  fault : SourceFault
  position : Nat

namespace Diagnostic

def repeated (n : Nat) (c : Char) : String :=
  String.ofList (List.replicate n c)

def lines (cs : List Char) : List (List Char) :=
  StringLiteral.linesBy Blank.isLineEnd cs

def linesUpTo (position : Nat) (cs : List Char) : List (List Char) :=
  let tail := (lines (cs.drop position)).head?.getD []
  lines (cs.take position ++ tail)

def trimmedEnd (line : List Char) : List Char :=
  (line.reverse.dropWhile Blank.contains).reverse

/-- How many cells a character takes at a column. A tab reaches to the next multiple of four, and
any other blank is shown as a space. -/
def width (column : Nat) (c : Char) : Nat :=
  if c == '\t' then 4 - column % 4 else if Blank.contains c then 1 else Width.ofChar c

def widthAt (line : List Char) (column : Nat) : Nat :=
  ((line.drop column).head?.map (width column)).getD 1

def widthBefore (line : List Char) : Nat → Nat
  | 0 => 0
  | column + 1 => widthBefore line column + widthAt line column

def shownLine (line : List Char) : String :=
  String.join (line.zipIdx.map fun (c, column) =>
    if Blank.contains c then repeated (width column c) ' ' else c.toString)

/-- A diagnostic as it is shown for a source text and the path it came from. Counts start at one,
and the pointer reaches over the two columns after the place. -/
def text (path source : String) (d : Diagnostic) : String :=
  let cs := source.toList
  let number := (lines (cs.take d.position)).length
  let before := ((lines (cs.take d.position)).getLast?.getD []).length
  let line := trimmedEnd ((linesUpTo d.position cs).getLast?.getD [])
  let margin := repeated (toString number).length ' '
  let rule := repeated ((toString number).length + 2) '─'
  let shift := repeated (widthBefore line before) ' '
  let reach := widthAt line (before + 1) + widthAt line (before + 2)
  let place := path ++ ":" ++ toString number ++ ":" ++ toString (before + 1)
  "Error: syntax error: " ++ d.fault.message ++ "\n"
    ++ margin ++ "  ╭─[ " ++ place ++ " ]\n"
    ++ margin ++ "  │\n"
    ++ " " ++ toString number ++ " │ " ++ shownLine line ++ "\n"
    ++ margin ++ "  │ " ++ shift ++ "┬" ++ repeated reach ' ' ++ "\n"
    ++ margin ++ "  │ " ++ shift ++ "╰" ++ repeated reach '─' ++ " " ++ d.fault.message ++ "\n"
    ++ rule ++ "╯\n"

end Diagnostic

structure UnreadableSource where
  path : String
  text : String
  faults : List Diagnostic

/-- The first five diagnostics with an empty line between them, and how many more there are. -/
def UnreadableSource.message (u : UnreadableSource) : String :=
  let shown := String.intercalate "\n" ((u.faults.take 5).map (·.text u.path u.text))
  let more := u.faults.length - 5
  if more = 0 then shown else shown ++ "\n...and " ++ toString more ++ " other errors"

end QueryShaping
