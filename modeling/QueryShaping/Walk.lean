import QueryShaping.Document.Definition

namespace QueryShaping

/-- What is done at each kind of node. A kind left out changes nothing and is gone below. -/
structure Walker (σ : Type) where
  field : σ → FieldHead → List Selection → σ × Bool := fun s _ _ => (s, true)
  spread : σ → Name → List Directive → σ × Bool := fun s _ _ => (s, true)
  inline : σ → Option Name → List Directive → List Selection → σ × Bool :=
    fun s _ _ _ => (s, true)
  value : σ → Value → σ × Bool := fun s _ => (s, true)

namespace Walker

variable {σ : Type} (v : Walker σ)

mutual

def walkValue (s : σ) (value : Value) : σ :=
  let (s, below) := v.value s value
  if below then
    match value with
    | .list items => walkItems s items
    | .object fields => walkObject s fields
    | _ => s
  else s

def walkItems (s : σ) : List Value → σ
  | [] => s
  | value :: rest => walkItems (walkValue s value) rest

def walkObject (s : σ) : List (Name × Value) → σ
  | [] => s
  | (_, value) :: rest => walkObject (walkValue s value) rest

end

def walkArguments (s : σ) (arguments : List Argument) : σ :=
  arguments.foldl (fun s a => v.walkValue s a.value) s

def walkDirectives (s : σ) (directives : List Directive) : σ :=
  directives.foldl (fun s d => v.walkArguments s d.arguments) s

mutual

def walkSelection (s : σ) (selection : Selection) : σ :=
  match selection with
  | .field head children =>
    let (s, below) := v.field s head children
    if below then
      walkSelections (v.walkDirectives (v.walkArguments s head.arguments) head.directives) children
    else s
  | .spread fragment directives =>
    let (s, below) := v.spread s fragment directives
    if below then v.walkDirectives s directives else s
  | .inline condition directives children =>
    let (s, below) := v.inline s condition directives children
    if below then walkSelections (v.walkDirectives s directives) children else s

def walkSelections (s : σ) : List Selection → σ
  | [] => s
  | selection :: rest => walkSelections (walkSelection s selection) rest

end

def walkOperation (s : σ) (op : Operation) : σ :=
  v.walkSelections (v.walkDirectives s op.directives) op.selections

def walkFragment (s : σ) (f : Fragment) : σ :=
  v.walkSelections (v.walkDirectives s f.directives) f.selections

/-- Type system definitions are passed over. -/
def walkDefinition (s : σ) : Definition → σ
  | .operation op => v.walkOperation s op
  | .fragment f => v.walkFragment s f
  | .typeSystem _ => s

def walkDocument (s : σ) (d : Document) : σ :=
  d.definitions.foldl v.walkDefinition s

end Walker

inductive WalkEvent where
  | field (name : Name)
  | spread (fragment : Name)
  | inline (typeCondition : Option Name)
  | value (value : Value)

inductive NodeKind where
  | field
  | spread
  | inline
  | value
deriving DecidableEq

/-- Records every node met, latest first, and does not go below nodes of the given kinds. -/
def Walker.recorder (stop : List NodeKind) : Walker (List WalkEvent) where
  field events head _ := (.field head.name :: events, !stop.contains .field)
  spread events fragment _ := (.spread fragment :: events, !stop.contains .spread)
  inline events condition _ _ := (.inline condition :: events, !stop.contains .inline)
  value events value := (.value value :: events, !stop.contains .value)

def Walker.variableRecorder : Walker (List Name) where
  value names value :=
    match value with
    | .var name => (name :: names, true)
    | _ => (names, true)

def Walker.spreadRecorder : Walker (List Name) where
  spread names fragment _ := (fragment :: names, true)

end QueryShaping
