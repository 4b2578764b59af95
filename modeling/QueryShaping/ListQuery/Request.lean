import QueryShaping.Document.Name
import QueryShaping.Settings

namespace QueryShaping

structure Request where
  plain : List Name
  custom : List Name

def after? [BEq α] : List α → List α → Option (List α)
  | [], rest => some rest
  | _ :: _, [] => none
  | a :: as, b :: bs => if a == b then after? as bs else none

/-- The leaf a custom column names. -/
def customLeaf (object : Name) (column : String) : Name :=
  match after? (object.toList ++ ['.']) column.toList with
  | some leaf => String.ofList leaf
  | none => column

namespace Request

def ofColumns (customField : Name) (columns : List Column) : Request where
  plain := (columns.filter fun c => !c.isCustom && c.name != typenameField).map (·.name)
  custom := (columns.filter (·.isCustom)).map fun c => customLeaf customField c.name

def asksPlain (r : Request) (name : Name) : Bool :=
  r.plain.contains name

def asksCustom (r : Request) : Bool :=
  !r.custom.isEmpty

def asks (r : Request) (customField name : Name) : Bool :=
  r.asksPlain name || (name == customField && r.asksCustom)

end Request

end QueryShaping
