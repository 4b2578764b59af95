import QueryShaping.Document.Definition
import QueryShaping.Source.Rule

namespace QueryShaping.Grammar

open Rule

/-- What a key stands for: an item after a colon. Without a colon the key stands for nothing. -/
def keyed (item : Rule α) : Rule (Option (Name × α)) := do
  let key ← name
  if ← taken (.mark ':') then
    let a ← item
    pure (some (key, a))
  else pure none

def valueOf (constant : Bool) (inner : Rule Value) : Rule Value := do
  match ← next with
  | .int digits => pure (.int digits)
  | .float digits => pure (.float digits)
  | .string text => pure (.string text)
  | .name "true" => pure (.boolean true)
  | .name "false" => pure (.boolean false)
  | .name "null" => pure .null
  | .name text => pure (.enum text)
  | .mark '$' => if constant then failure else .var <$> name
  | .mark '[' => .list <$> upTo ']' inner
  | .mark '{' => (fun fields => .object (fields.filterMap id)) <$> upTo '}' (keyed inner)
  | _ => failure

def value (constant : Bool) : Nat → Rule Value
  | 0 => valueOf constant failure
  | depth + 1 => valueOf constant (value constant depth)

def arguments (constant : Bool) (depth : Nat) : Rule (List Argument) := do
  let list ← enclosedIfAny '(' ')' (keyed (value constant depth))
  pure ((list.filterMap id).map fun (key, item) => ⟨key, item⟩)

def directive (constant : Bool) (depth : Nat) : Rule Directive := do
  mark '@'
  let key ← name
  let list ← arguments constant depth
  pure ⟨key, list⟩

def directives (constant : Bool) (depth : Nat) : Rule (List Directive) :=
  whileNext (· == .mark '@') (directive constant depth)

def typeRefOf (inner : Rule TypeRef) : Rule TypeRef := do
  let type ←
    match ← next with
    | .name text => pure (.named text)
    | .mark '[' => do
      let item ← inner
      mark ']'
      pure (.list item)
    | _ => failure
  if ← taken (.mark '!') then pure (.nonNull type) else pure type

def typeRef : Nat → Rule TypeRef
  | 0 => typeRefOf failure
  | depth + 1 => typeRefOf (typeRef depth)

def defaultValue? (depth : Nat) : Rule (Option Value) := do
  if ← taken (.mark '=') then some <$> value true depth else pure none

def variableDefinition (depth : Nat) : Rule VariableDefinition := do
  mark '$'
  let key ← name
  mark ':'
  let type ← typeRef depth
  let given ← defaultValue? depth
  let list ← directives true depth
  pure ⟨key, type, given, list⟩

def aliasName : Rule (Option Name) := do
  if (← second) == some (.mark ':') then
    let given ← name
    mark ':'
    pure (some given)
  else pure none

def fieldHead (depth : Nat) : Rule FieldHead := do
  let given ← aliasName
  let own ← name
  let list ← arguments false depth
  let extra ← directives false depth
  pure ⟨given, own, list, extra⟩

def afterEllipsis (depth : Nat) (children : Rule (List Selection)) : Rule Selection := do
  match ← peek with
  | some (.name "on") => do
    let _ ← next
    let condition ← name
    let list ← directives false depth
    .inline (some condition) list <$> children
  | some (.name fragment) => do
    let _ ← next
    .spread fragment <$> directives false depth
  | _ => do
    let list ← directives false depth
    .inline none list <$> children

/-- A selection, given the rule for the selection sets inside it. No comma follows three dots. -/
def selection (depth : Nat) (children : Rule (List Selection)) : Rule Selection := do
  if (← peek) == some .ellipsis then
    if (← second).isNone then failure
    let _ ← next
    afterEllipsis depth children
  else
    let head ← fieldHead depth
    if (← peek) == some (.mark '{') then .field head <$> children else pure (.field head [])

def selectionSet : Nat → Rule (List Selection)
  | 0 => failure
  | depth + 1 => enclosed '{' '}' (selection depth (selectionSet depth))

def optionalName : Rule (Option Name) := do
  match ← peek with
  | some (.name text) => do
    let _ ← next
    pure (some text)
  | _ => pure none

def operation (kind : OperationKind) (depth : Nat) : Rule Operation := do
  let given ← optionalName
  let vars ← enclosedIfAny '(' ')' (variableDefinition depth)
  let list ← directives false depth
  let selections ← selectionSet depth
  pure ⟨kind, given, vars, list, selections⟩

def fragment (depth : Nat) : Rule Fragment := do
  let given ← name
  if given == "on" then failure
  exactly (.name "on")
  let condition ← name
  let list ← directives false depth
  let selections ← selectionSet depth
  pure ⟨given, condition, list, selections⟩

end QueryShaping.Grammar
