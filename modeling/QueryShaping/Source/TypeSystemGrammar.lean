import QueryShaping.Source.Grammar

namespace QueryShaping.Grammar

open Rule

def description : Rule (Option String) := do
  match ← peek with
  | some (.string text) => do
    let _ ← next
    pure (some text)
  | _ => pure none

def inputDefinition (depth : Nat) : Rule InputDefinition := do
  let text ← description
  let key ← name
  mark ':'
  let type ← typeRef depth
  let given ← defaultValue? depth
  let list ← directives true depth
  pure ⟨text, key, type, given, list⟩

def fieldDefinition (depth : Nat) : Rule FieldDefinition := do
  let text ← description
  let key ← name
  let inputs ← enclosedIfAny '(' ')' (inputDefinition depth)
  mark ':'
  let type ← typeRef depth
  let list ← directives true depth
  pure ⟨text, key, inputs, type, list⟩

def enumValueDefinition (depth : Nat) : Rule EnumValueDefinition := do
  let text ← description
  let key ← name
  if ["true", "false", "null"].contains key then failure
  let list ← directives true depth
  pure ⟨text, key, list⟩

def operationKind? : Name → Option OperationKind
  | "query" => some .query
  | "mutation" => some .mutation
  | "subscription" => some .subscription
  | _ => none

/-- A root type of a schema. A kind of operation without a type is none. -/
def rootType : Rule (Option (OperationKind × Name)) := do
  match operationKind? (← name) with
  | none => failure
  | some kind => do
    mark ':'
    let type ← optionalName
    pure (type.map fun t => (kind, t))

def interfaces : Rule (List Name) := do
  if ← taken (.name "implements") then separated '&' name else pure []

def unionMembers : Rule (List Name) := do
  if ← taken (.mark '=') then separated '|' name else pure []

def fieldDefinitions (depth : Nat) : Rule (List FieldDefinition) :=
  enclosedIfAny '{' '}' (fieldDefinition depth)

def schemaItem (depth : Nat) : Name → Rule SchemaItem
  | "schema" => do
    let list ← directives true depth
    let roots ← enclosedIfAny '{' '}' rootType
    pure (.schema list (roots.filterMap id))
  | "scalar" => do
    let key ← name
    .scalar key <$> directives true depth
  | "type" => do
    let key ← name
    let bases ← interfaces
    let list ← directives true depth
    .object key bases list <$> fieldDefinitions depth
  | "interface" => do
    let key ← name
    let bases ← interfaces
    let list ← directives true depth
    .interface key bases list <$> fieldDefinitions depth
  | "union" => do
    let key ← name
    let list ← directives true depth
    .union key list <$> unionMembers
  | "enum" => do
    let key ← name
    let list ← directives true depth
    .enum key list <$> enclosedIfAny '{' '}' (enumValueDefinition depth)
  | "input" => do
    let key ← name
    let list ← directives true depth
    .input key list <$> enclosedIfAny '{' '}' (inputDefinition depth)
  | _ => failure

/-- An extension of the schema after its keyword. Beside directives its braces may be empty. -/
def schemaExtension (depth : Nat) : Rule SchemaItem := do
  let list ← directives true depth
  let roots ← (do if ← taken (.mark '{') then upTo '}' rootType else pure [])
  if list.isEmpty && roots.isEmpty then failure
  pure (.schema list (roots.filterMap id))

def isExtension : SchemaItem → Bool
  | .schema _ _ => true
  | .scalar _ list => !list.isEmpty
  | .object _ bases list fields => !(bases.isEmpty && list.isEmpty && fields.isEmpty)
  | .interface _ bases list fields => !(bases.isEmpty && list.isEmpty && fields.isEmpty)
  | .union _ list members => !(list.isEmpty && members.isEmpty)
  | .enum _ list values => !(list.isEmpty && values.isEmpty)
  | .input _ list fields => !(list.isEmpty && fields.isEmpty)

def locations : List Name :=
  ["QUERY", "MUTATION", "SUBSCRIPTION", "FIELD", "FRAGMENT_DEFINITION", "FRAGMENT_SPREAD",
    "INLINE_FRAGMENT", "VARIABLE_DEFINITION", "SCHEMA", "SCALAR", "OBJECT", "FIELD_DEFINITION",
    "ARGUMENT_DEFINITION", "INTERFACE", "UNION", "ENUM", "ENUM_VALUE", "INPUT_OBJECT",
    "INPUT_FIELD_DEFINITION"]

def location : Rule Name := do
  let place ← name
  if locations.contains place then pure place else failure

def directiveDefinition (text : Option String) (depth : Nat) : Rule TypeSystemDefinition := do
  mark '@'
  let key ← name
  let inputs ← enclosedIfAny '(' ')' (inputDefinition depth)
  let repeatable ← taken (.name "repeatable")
  exactly (.name "on")
  let places ← separated '|' location
  pure (.directive text key inputs repeatable places)

def typeSystemExtension (depth : Nat) : Rule SchemaItem := do
  if (← second).isNone then failure
  let _ ← next
  match ← name with
  | "schema" => schemaExtension depth
  | keyword => do
    let item ← schemaItem depth keyword
    if isExtension item then pure item else failure

def typeSystem (depth : Nat) : Rule TypeSystemDefinition := do
  let text ← description
  if text.isNone && (← peek) == some (.name "extend") then
    .itemExtension <$> typeSystemExtension depth
  else
    match ← name with
    | "directive" => directiveDefinition text depth
    | keyword => .item text <$> schemaItem depth keyword

end QueryShaping.Grammar
