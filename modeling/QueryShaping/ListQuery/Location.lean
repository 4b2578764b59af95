import QueryShaping.Document.Definition
import QueryShaping.Settings

namespace QueryShaping

/-- A list around its first member for which a view is defined. -/
structure Around (α β : Type) where
  before : List α
  focus : β
  after : List α

def Around.fill (a : Around α β) (member : α) : List α :=
  a.before ++ member :: a.after

def around? (view : α → Option β) : List α → Option (Around α β)
  | [] => none
  | a :: rest =>
    match view a with
    | some b => some ⟨[], b, rest⟩
    | none => (around? view rest).map fun r => ⟨a :: r.before, r.focus, r.after⟩

def Selection.fieldNamed? (name : Name) : Selection → Option (FieldHead × List Selection)
  | .field head children => if head.name == name then some (head, children) else none
  | _ => none

structure ListField where
  head : FieldHead
  children : Around Selection (FieldHead × List Selection)

structure ListOperation where
  operation : Operation
  roots : Around Selection ListField

structure ListQuery where
  definitions : Around Definition ListOperation

def ListSettings.admits (s : ListSettings) (root : Name) : Bool :=
  match s.listField with
  | none => true
  | some name => root == name

def ListField.of? (s : ListSettings) : Selection → Option ListField
  | .field head children =>
    if s.admits head.name then
      (around? (Selection.fieldNamed? s.itemsField) children).map fun items => ⟨head, items⟩
    else none
  | _ => none

def ListOperation.of? (s : ListSettings) (op : Operation) : Option ListOperation :=
  (around? (ListField.of? s) op.selections).map fun roots => ⟨op, roots⟩

namespace ListQuery

/-- Only the first operation is looked into. -/
def of? (s : ListSettings) (d : Document) : Option ListQuery :=
  match around? Definition.operation? d.definitions with
  | none => none
  | some ops =>
    (ListOperation.of? s ops.focus).map fun op => ⟨⟨ops.before, op, ops.after⟩⟩

def items (q : ListQuery) : List Selection :=
  q.definitions.focus.roots.focus.children.focus.2

def withItems (q : ListQuery) (items : List Selection) : Document :=
  let op := q.definitions.focus
  let field := op.roots.focus
  let itemsField := Selection.field field.children.focus.1 items
  let root := Selection.field field.head (field.children.fill itemsField)
  ⟨q.definitions.fill (.operation { op.operation with selections := op.roots.fill root })⟩

end ListQuery

end QueryShaping
