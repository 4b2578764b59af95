import QueryShaping.Document.Name

namespace QueryShaping

inductive Value where
  | null
  | enum (name : Name)
  | var (name : Name)
  | string (text : String)
  | float (digits : String)
  | int (digits : String)
  | boolean (truth : Bool)
  | list (items : List Value)
  | object (fields : List (Name × Value))

structure Argument where
  name : Name
  value : Value

structure Directive where
  name : Name
  arguments : List Argument

def directiveValues (directives : List Directive) : List Value :=
  directives.flatMap fun d => d.arguments.map (·.value)

end QueryShaping
