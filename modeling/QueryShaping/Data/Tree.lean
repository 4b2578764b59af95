import QueryShaping.Data.Decimal

namespace QueryShaping

/-- A piece of data. What is `garbled` is a string, or a mapping with a key, that holds half a
character: no reader takes it, but it may stand where nobody reads. -/
inductive Data where
  | null
  | boolean (truth : Bool)
  | integer (value : Int)
  | real (value : Decimal)
  | string (text : String)
  | plain (text : String)
  | garbled
  | sequence (items : List Data)
  | mapping (entries : List (String × Data))

def Data.ofEntries (entries : List (Option String × Data)) : Data :=
  match entries.mapM fun (key, d) => key.map fun k => (k, d) with
  | some entries => .mapping entries
  | none => .garbled

end QueryShaping
