import QueryShaping.Source.Token

namespace QueryShaping

abbrev Rule (α : Type) := StateT (List Token) Option α

namespace Rule

def peek : Rule (Option Lexeme) := fun tokens =>
  some (tokens.head?.map (·.lexeme), tokens)

/-- The lexeme after the next one. A comma between the two hides it. -/
def second : Rule (Option Lexeme) := fun tokens =>
  match tokens with
  | t :: u :: _ => some (if t.meetsComma then none else some u.lexeme, tokens)
  | _ => some (none, tokens)

def next : Rule Lexeme
  | [] => none
  | t :: rest => some (t.lexeme, rest)

def exactly (lexeme : Lexeme) : Rule Unit := do
  if (← next) == lexeme then pure () else failure

def taken (lexeme : Lexeme) : Rule Bool := do
  if (← peek) == some lexeme then
    let _ ← next
    pure true
  else pure false

def mark (c : Char) : Rule Unit :=
  exactly (.mark c)

def name : Rule Name := do
  match ← next with
  | .name text => pure text
  | _ => failure

def whileNext (fits : Lexeme → Bool) (item : Rule α) (tokens : List Token) :
    Option (List α × List Token) :=
  match tokens with
  | [] => some ([], [])
  | t :: rest =>
    if fits t.lexeme then
      match item (t :: rest) with
      | none => none
      | some (a, left) =>
        if left.length < (t :: rest).length then
          (whileNext fits item left).map fun (as, left) => (a :: as, left)
        else none
    else some ([], t :: rest)
termination_by tokens.length
decreasing_by assumption

def upTo (closing : Char) (item : Rule α) : Rule (List α) := do
  let items ← whileNext (· != .mark closing) item
  mark closing
  pure items

def enclosed (opening closing : Char) (item : Rule α) : Rule (List α) := do
  mark opening
  match ← upTo closing item with
  | [] => failure
  | items => pure items

def enclosedIfAny (opening closing : Char) (item : Rule α) : Rule (List α) := do
  if (← peek) == some (.mark opening) then enclosed opening closing item else pure []

/-- One item or more with a mark between them; one more mark may stand in front. -/
def separated (separator : Char) (item : Rule α) : Rule (List α) := do
  let _ ← taken (.mark separator)
  let first ← item
  let rest ← whileNext (· == .mark separator) (do mark separator; item)
  pure (first :: rest)

end Rule

end QueryShaping
