import QueryShaping.Document.Value

namespace QueryShaping

structure FieldHead where
  aliasName : Option Name
  name : Name
  arguments : List Argument
  directives : List Directive

inductive Selection where
  | field (head : FieldHead) (children : List Selection)
  | spread (fragment : Name) (directives : List Directive)
  | inline (typeCondition : Option Name) (directives : List Directive) (children : List Selection)

namespace Selection

def leaf (name : Name) : Selection :=
  .field ⟨none, name, [], []⟩ []

def fieldName? : Selection → Option Name
  | .field head _ => some head.name
  | _ => none

def spreadName? : Selection → Option Name
  | .spread fragment _ => some fragment
  | _ => none

def isFieldNamed (name : Name) (s : Selection) : Bool :=
  s.fieldName? == some name

def isSpreadOf (fragment : Name) (s : Selection) : Bool :=
  s.spreadName? == some fragment

end Selection

/-- The names of the fields directly in a selection set, with repetition. -/
def fieldNames (selections : List Selection) : List Name :=
  selections.filterMap Selection.fieldName?

def spreadNames (selections : List Selection) : List Name :=
  selections.filterMap Selection.spreadName?

def hasField (name : Name) (selections : List Selection) : Bool :=
  selections.any (Selection.isFieldNamed name)

def hasSpread (fragment : Name) (selections : List Selection) : Bool :=
  selections.any (Selection.isSpreadOf fragment)

def firstField? (name : Name) (selections : List Selection) : Option Selection :=
  selections.find? (Selection.isFieldNamed name)

theorem hasField_iff {name : Name} {selections : List Selection} :
    hasField name selections = true ↔ name ∈ fieldNames selections := by
  simp [hasField, fieldNames, Selection.isFieldNamed]

theorem hasSpread_iff {fragment : Name} {selections : List Selection} :
    hasSpread fragment selections = true ↔ fragment ∈ spreadNames selections := by
  simp [hasSpread, spreadNames, Selection.isSpreadOf]

theorem mem_spreadNames_cons_iff {fragment : Name} {s : Selection} {rest : List Selection} :
    fragment ∈ spreadNames (s :: rest) ↔
      s.spreadName? = some fragment ∨ fragment ∈ spreadNames rest := by
  cases h : s.spreadName? <;> simp [spreadNames, h, eq_comm]

namespace Selection

theorem fieldName?_eq_some_iff {s : Selection} {name : Name} :
    s.fieldName? = some name ↔ ∃ head children, s = .field head children ∧ head.name = name := by
  cases s <;> simp [fieldName?]

theorem spreadName?_eq_some_iff {s : Selection} {name : Name} :
    s.spreadName? = some name ↔ ∃ directives, s = .spread name directives := by
  cases s <;> simp [spreadName?]

end Selection

end QueryShaping
