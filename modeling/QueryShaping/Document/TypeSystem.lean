import QueryShaping.Document.Value

namespace QueryShaping

inductive OperationKind where
  | query
  | mutation
  | subscription
deriving DecidableEq

def OperationKind.keyword : OperationKind → String
  | .query => "query"
  | .mutation => "mutation"
  | .subscription => "subscription"

inductive TypeRef where
  | named (name : Name)
  | list (item : TypeRef)
  | nonNull (type : TypeRef)

structure InputDefinition where
  description : Option String
  name : Name
  type : TypeRef
  default? : Option Value
  directives : List Directive

structure FieldDefinition where
  description : Option String
  name : Name
  arguments : List InputDefinition
  type : TypeRef
  directives : List Directive

structure EnumValueDefinition where
  description : Option String
  name : Name
  directives : List Directive

inductive SchemaItem where
  | schema (directives : List Directive) (roots : List (OperationKind × Name))
  | scalar (name : Name) (directives : List Directive)
  | object (name : Name) (interfaces : List Name) (directives : List Directive)
      (fields : List FieldDefinition)
  | interface (name : Name) (interfaces : List Name) (directives : List Directive)
      (fields : List FieldDefinition)
  | union (name : Name) (directives : List Directive) (members : List Name)
  | enum (name : Name) (directives : List Directive) (values : List EnumValueDefinition)
  | input (name : Name) (directives : List Directive) (fields : List InputDefinition)

inductive TypeSystemDefinition where
  | item (description : Option String) (item : SchemaItem)
  | itemExtension (item : SchemaItem)
  | directive (description : Option String) (name : Name) (arguments : List InputDefinition)
      (repeatable : Bool) (locations : List Name)

end QueryShaping
