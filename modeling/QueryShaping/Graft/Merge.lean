import QueryShaping.Document.Selection

namespace QueryShaping

def growField (name : Name) (grow : List Selection → List Selection) :
    List Selection → List Selection
  | [] => []
  | .field head children :: rest =>
    if head.name == name then .field head (grow children) :: rest
    else .field head children :: growField name grow rest
  | s :: rest => s :: growField name grow rest

mutual

/-- Merges one selection into a selection set. -/
def mergeSelection (base : List Selection) : Selection → List Selection
  | .field head children =>
    if hasField head.name base then
      growField head.name
        (fun old =>
          if old.isEmpty || children.isEmpty then old else mergeSelections old children)
        base
    else base ++ [.field head children]
  | .spread fragment directives =>
    if hasSpread fragment base then base else base ++ [.spread fragment directives]
  | .inline condition directives children => base ++ [.inline condition directives children]

def mergeSelections (base : List Selection) : List Selection → List Selection
  | [] => base
  | s :: rest => mergeSelections (mergeSelection base s) rest

end

theorem mergeSelections_eq_foldl (base added : List Selection) :
    mergeSelections base added = added.foldl mergeSelection base := by
  induction added generalizing base with
  | nil => simp [mergeSelections]
  | cons s rest ih => simp [mergeSelections, ih]

end QueryShaping
