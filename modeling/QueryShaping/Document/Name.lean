namespace QueryShaping

abbrev Name := String

namespace Name

def isStart (c : Char) : Bool :=
  c.isAlpha || c == '_'

def isPart (c : Char) : Bool :=
  isStart c || c.isDigit

def isValid (text : String) : Bool :=
  match text.toList with
  | [] => false
  | c :: rest => isStart c && rest.all isPart

end Name

/-- The field every object type answers with its own name; it counts as no content. -/
def typenameField : Name := "__typename"

end QueryShaping
