import QueryShaping.Document.Selection
import QueryShaping.Document.TypeSystem

namespace QueryShaping

structure VariableDefinition where
  name : Name
  type : TypeRef
  default? : Option Value
  directives : List Directive

structure Operation where
  kind : OperationKind
  name : Option Name
  variableDefs : List VariableDefinition
  directives : List Directive
  selections : List Selection

structure Fragment where
  name : Name
  typeCondition : Name
  directives : List Directive
  selections : List Selection

inductive Definition where
  | operation (operation : Operation)
  | fragment (fragment : Fragment)
  | typeSystem (definition : TypeSystemDefinition)

structure Document where
  definitions : List Definition

namespace Definition

def operation? : Definition → Option Operation
  | .operation op => some op
  | _ => none

def fragment? : Definition → Option Fragment
  | .fragment f => some f
  | _ => none

def typeSystem? : Definition → Option TypeSystemDefinition
  | .typeSystem d => some d
  | _ => none

def mapOperation (f : Operation → Operation) : Definition → Definition
  | .operation op => .operation (f op)
  | d => d

def mapFragment (f : Fragment → Fragment) : Definition → Definition
  | .fragment frag => .fragment (f frag)
  | d => d

end Definition

namespace Document

def operations (d : Document) : List Operation :=
  d.definitions.filterMap Definition.operation?

def fragments (d : Document) : List Fragment :=
  d.definitions.filterMap Definition.fragment?

def typeSystem (d : Document) : List TypeSystemDefinition :=
  d.definitions.filterMap Definition.typeSystem?

end Document

/-- The name of the first field at the top of an operation. Operations are told apart by it,
never by their own names. -/
def Operation.rootName? (op : Operation) : Option Name :=
  (fieldNames op.selections).head?

end QueryShaping
