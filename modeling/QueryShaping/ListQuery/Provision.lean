import QueryShaping.Fragments

namespace QueryShaping

mutual

/-- Finds the field at the top level and enters the fragment spread there; inline fragments are seen
through. -/
def Selection.findFields (enter : Search → Name → Search) (s : Search) : Selection → Search
  | .field head _ => { s with found := head.name :: s.found }
  | .spread fragment _ => enter s fragment
  | .inline _ _ children => findFieldsIn enter s children

def findFieldsIn (enter : Search → Name → Search) (s : Search) : List Selection → Search
  | [] => s
  | selection :: rest => findFieldsIn enter (selection.findFields enter s) rest

end

def fieldSearch (defs : List Fragment) (fragment : Name) : Search :=
  (FragmentGroups.ofList defs).enter (fun enter s f => findFieldsIn enter s f.selections) .start
    fragment

/-- The names of the fields a fragment provides: those at the top level of its definitions, and
those provided by the fragments spread there. -/
def providedFields (defs : List Fragment) (fragment : Name) : List Name :=
  (fieldSearch defs fragment).found

def provides (defs : List Fragment) (fragment field : Name) : Bool :=
  (providedFields defs fragment).contains field

end QueryShaping
