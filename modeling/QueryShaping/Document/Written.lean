import QueryShaping.Document.Definition
import QueryShaping.Text.StringLiteral

namespace QueryShaping.Written

def indent (depth : Nat) : String :=
  String.ofList (List.replicate (2 * depth) ' ')

def separated (mark : String) (parts : List String) : String :=
  String.intercalate mark parts

def parenthesized (parts : List String) : String :=
  if parts.isEmpty then "" else "(" ++ separated ", " parts ++ ")"

def onLines (depth : Nat) (opening closing : String) (lines : List String) : String :=
  if lines.isEmpty then opening ++ closing
  else
    opening ++ String.join (lines.map fun l => "\n" ++ indent (depth + 1) ++ l)
      ++ "\n" ++ indent depth ++ closing

def block (depth : Nat) (lines : List String) : String :=
  onLines depth "\x7b" "\x7d" lines

def onePerLine (depth : Nat) (opening closing : String) (parts : List String) : String :=
  onLines depth opening closing (parts.map (· ++ ","))

def braced (depth : Nat) (lines : List String) : String :=
  if lines.isEmpty then "" else " " ++ block depth lines

def hexDigit (n : Nat) : Char :=
  if n < 10 then Char.ofNat ('0'.toNat + n) else Char.ofNat ('A'.toNat + (n - 10))

def quotedChar (c : Char) : String :=
  if c == '"' then "\\\""
  else if c == '\\' then "\\\\"
  else if c == '\n' then "\\n"
  else if c == '\r' then "\\r"
  else if c.toNat == 8 then "\\b"
  else if c.toNat == 12 then "\\f"
  else if c.toNat < 32 && c != '\t' then
    String.ofList ['\\', 'u', '0', '0', hexDigit (c.toNat / 16), hexDigit (c.toNat % 16)]
  else c.toString

def quoted (text : String) : String :=
  "\"" ++ String.join (text.toList.map quotedChar) ++ "\""

mutual

def value : Value → String
  | .null => "null"
  | .enum name => name
  | .var name => "$" ++ name
  | .string text => quoted text
  | .float digits => digits
  | .int digits => digits
  | .boolean truth => if truth then "true" else "false"
  | .list items => "[" ++ separated ", " (listItems items) ++ "]"
  | .object fields => "\x7b" ++ separated ", " (objectFields fields) ++ "\x7d"

def listItems : List Value → List String
  | [] => []
  | v :: rest => value v :: listItems rest

def objectFields : List (Name × Value) → List String
  | [] => []
  | (name, v) :: rest => (name ++ ": " ++ value v) :: objectFields rest

end

def arguments (list : List Argument) : String :=
  parenthesized (list.map fun a => a.name ++ ": " ++ value a.value)

def directives (list : List Directive) : String :=
  String.join (list.map fun d => " @" ++ d.name ++ arguments d.arguments)

def typeRef : TypeRef → String
  | .named name => name
  | .list item => "[" ++ typeRef item ++ "]"
  | .nonNull type => typeRef type ++ "!"

def defaultValue : Option Value → String
  | none => ""
  | some v => " = " ++ value v

def fieldHead (head : FieldHead) : String :=
  (match head.aliasName with
    | none => ""
    | some name => name ++ ": ")
    ++ head.name ++ arguments head.arguments ++ directives head.directives

def typeCondition : Option Name → String
  | none => ""
  | some name => " on " ++ name

mutual

def selection (depth : Nat) : Selection → String
  | .field head children => fieldHead head ++ braced depth (selectionSet (depth + 1) children)
  | .spread fragment list => "..." ++ fragment ++ directives list
  | .inline condition list children =>
    "..." ++ typeCondition condition ++ directives list ++ " "
      ++ block depth (selectionSet (depth + 1) children)

def selectionSet (depth : Nat) : List Selection → List String
  | [] => []
  | s :: rest => selection depth s :: selectionSet depth rest

end

def variableDefinition (v : VariableDefinition) : String :=
  "$" ++ v.name ++ ": " ++ typeRef v.type ++ defaultValue v.default? ++ directives v.directives

/-- A query without name, variables and directives needs no keyword where it comes first. -/
def operation (isFirst : Bool) (op : Operation) : String :=
  let plain :=
    op.kind == .query && op.name.isNone && op.variableDefs.isEmpty && op.directives.isEmpty
  let head :=
    op.kind.keyword
      ++ (match op.name with
        | none => ""
        | some name => " " ++ name)
      ++ parenthesized (op.variableDefs.map variableDefinition)
      ++ directives op.directives
  let lines := selectionSet 1 op.selections
  if isFirst && plain then block 0 lines else head ++ " " ++ block 0 lines

def fragment (f : Fragment) : String :=
  "fragment " ++ f.name ++ " on " ++ f.typeCondition ++ directives f.directives ++ " "
    ++ block 0 (selectionSet 1 f.selections)

def escapeTripleQuotes : List Char → List Char
  | '"' :: '"' :: '"' :: rest => '\\' :: '"' :: '"' :: '"' :: escapeTripleQuotes rest
  | c :: rest => c :: escapeTripleQuotes rest
  | [] => []

/-- Whether a block literal stands for a text as it is. A block loses carriage returns, blank lines
at its ends, and the indentation that its lines share. -/
def fitsBlock (text : String) : Bool :=
  let lines := StringLiteral.lines text.toList
  !text.toList.contains '\r' && !lines.head?.any StringLiteral.isBlankLine
    && !lines.getLast?.any StringLiteral.isBlankLine && StringLiteral.sharedIndent lines == 0

/-- Whether a block literal has its quotes on lines of their own: around several lines or a long
one, and where the text might run into the closing quotes. -/
def spansLines (text : String) : Bool :=
  text.toList.contains '\n' || 70 < text.utf8ByteSize
    || text.toList.getLast?.any fun c => c == '"' || c == '\\'

def blockLiteral (depth : Nat) (text : String) : String :=
  let chars := escapeTripleQuotes text.toList
  let body :=
    if spansLines text then
      String.join ((StringLiteral.lines chars).map fun line =>
          if line.isEmpty then "\n" else "\n" ++ indent depth ++ String.ofList line)
        ++ "\n" ++ indent depth
    else String.ofList chars
  "\"\"\"" ++ body ++ "\"\"\""

def description (depth : Nat) : Option String → String
  | none => ""
  | some text =>
    (if fitsBlock text then blockLiteral depth text else quoted text) ++ "\n" ++ indent depth

mutual

def tallValue (depth : Nat) : Value → String
  | .string text =>
    if text.toList.contains '\n' && fitsBlock text then blockLiteral depth text else quoted text
  | .list items => onePerLine depth "[" "]" (tallItems (depth + 1) items)
  | .object fields => onePerLine depth "\x7b" "\x7d" (tallFields (depth + 1) fields)
  | v => value v

def tallItems (depth : Nat) : List Value → List String
  | [] => []
  | v :: rest => tallValue depth v :: tallItems depth rest

def tallFields (depth : Nat) : List (Name × Value) → List String
  | [] => []
  | (name, v) :: rest => (name ++ ": " ++ tallValue depth v) :: tallFields depth rest

end

def tallDefaultValue (depth : Nat) : Option Value → String
  | none => ""
  | some v => " = " ++ tallValue depth v

def inputDefinition (depth : Nat) (i : InputDefinition) : String :=
  description depth i.description ++ i.name ++ ": " ++ typeRef i.type
    ++ tallDefaultValue depth i.default? ++ directives i.directives

def inputInLine (i : InputDefinition) : String :=
  i.name ++ ": " ++ typeRef i.type ++ defaultValue i.default?

/-- Definitions of arguments. They share a line unless one of them has a description or
directives. -/
def argumentDefinitions (depth : Nat) (list : List InputDefinition) : String :=
  if list.any fun i => i.description.isSome || !i.directives.isEmpty then
    onePerLine depth "(" ")" (list.map (inputDefinition (depth + 1)))
  else parenthesized (list.map inputInLine)

def fieldDefinition (depth : Nat) (f : FieldDefinition) : String :=
  description depth f.description ++ f.name ++ argumentDefinitions depth f.arguments
    ++ ": " ++ typeRef f.type ++ directives f.directives

def enumValueDefinition (depth : Nat) (e : EnumValueDefinition) : String :=
  description depth e.description ++ e.name ++ directives e.directives

def namesAfter (keyword mark : String) (names : List Name) : String :=
  if names.isEmpty then "" else keyword ++ separated mark names

def rootType (root : OperationKind × Name) : String :=
  root.1.keyword ++ ": " ++ root.2

/-- A schema or a type. Only the definition of a schema has braces around nothing. -/
def schemaItem (isExtension : Bool) : SchemaItem → String
  | .schema list roots =>
    let lines := roots.map rootType
    "schema" ++ directives list ++ (if isExtension then braced 0 lines else " " ++ block 0 lines)
  | .scalar name list => "scalar " ++ name ++ directives list
  | .object name interfaces list fields =>
    "type " ++ name ++ namesAfter " implements " " & " interfaces ++ directives list
      ++ braced 0 (fields.map (fieldDefinition 1))
  | .interface name interfaces list fields =>
    "interface " ++ name ++ namesAfter " implements " " & " interfaces ++ directives list
      ++ braced 0 (fields.map (fieldDefinition 1))
  | .union name list members =>
    "union " ++ name ++ directives list ++ namesAfter " = " " | " members
  | .enum name list values =>
    "enum " ++ name ++ directives list ++ braced 0 (values.map (enumValueDefinition 1))
  | .input name list fields =>
    "input " ++ name ++ directives list ++ braced 0 (fields.map (inputDefinition 1))

def typeSystem : TypeSystemDefinition → String
  | .item text i => description 0 text ++ schemaItem false i
  | .itemExtension i => "extend " ++ schemaItem true i
  | .directive text name list repeatable locations =>
    description 0 text ++ "directive @" ++ name ++ argumentDefinitions 0 list
      ++ (if repeatable then " repeatable" else "") ++ namesAfter " on " " | " locations

def definition (isFirst : Bool) : Definition → String
  | .operation op => operation isFirst op
  | .fragment f => fragment f
  | .typeSystem d => typeSystem d

def document (d : Document) : String :=
  match d.definitions with
  | [] => ""
  | first :: rest => separated "\n\n" (definition true first :: rest.map (definition false)) ++ "\n"

end QueryShaping.Written
