import QueryShaping.Document.Definition

namespace QueryShaping

def Selection.children : Selection → List Selection
  | .field _ children => children
  | .spread _ _ => []
  | .inline _ _ children => children

/-- What an inline fragment puts in its place. -/
def Selection.inlined : Selection → List Selection
  | .inline _ _ children => children
  | _ => []

/-- A selection stands in a selection set, or in what `below` gives for a selection that does. -/
inductive Found (below : Selection → List Selection) (s : Selection) : List Selection → Prop where
  | here {set : List Selection} (member : s ∈ set) : Found below s set
  | deeper {set : List Selection} {t : Selection} (member : t ∈ set)
      (inner : Found below s (below t)) : Found below s set

/-- A selection stands in a selection set at any depth. -/
abbrev Within : Selection → List Selection → Prop :=
  Found Selection.children

/-- A selection stands at the top of a selection set, inline fragments seen through. -/
abbrev AtTop : Selection → List Selection → Prop :=
  Found Selection.inlined

theorem not_found_nil {below : Selection → List Selection} {s : Selection} :
    ¬ Found below s [] := by
  intro h
  cases h with
  | here member => simp at member
  | deeper member _ => simp at member

theorem found_cons_iff {below : Selection → List Selection} {s t : Selection}
    {rest : List Selection} :
    Found below s (t :: rest) ↔ s = t ∨ Found below s (below t) ∨ Found below s rest := by
  constructor
  · intro h
    cases h with
    | here member =>
      rcases List.mem_cons.mp member with rfl | hm
      · exact .inl rfl
      · exact .inr (.inr (.here hm))
    | deeper member inner =>
      rcases List.mem_cons.mp member with rfl | hm
      · exact .inr (.inl inner)
      · exact .inr (.inr (.deeper hm inner))
  · intro h
    rcases h with rfl | hb | hr
    · exact .here List.mem_cons_self
    · exact .deeper List.mem_cons_self hb
    · cases hr with
      | here member => exact .here (List.mem_cons_of_mem _ member)
      | deeper member inner => exact .deeper (List.mem_cons_of_mem _ member) inner

theorem Found.of_subset {below : Selection → List Selection} {s : Selection}
    {set more : List Selection} (h : Found below s set) (subset : ∀ t ∈ set, t ∈ more) :
    Found below s more := by
  cases h with
  | here member => exact .here (subset _ member)
  | deeper member inner => exact .deeper (subset _ member) inner

theorem exists_found_nil_iff {below : Selection → List Selection} {p : Selection → Prop} :
    (∃ s, Found below s [] ∧ p s) ↔ False := by
  simp [not_found_nil]

theorem exists_found_cons_iff {below : Selection → List Selection} {p : Selection → Prop}
    {t : Selection} {rest : List Selection} :
    (∃ s, Found below s (t :: rest) ∧ p s) ↔
      (p t ∨ ∃ s, Found below s (below t) ∧ p s) ∨ ∃ s, Found below s rest ∧ p s := by
  simp only [found_cons_iff, or_and_right, exists_or, exists_eq_left, or_assoc]

theorem exists_found_iff {below : Selection → List Selection} {p : Selection → Prop}
    {set : List Selection} :
    (∃ s, Found below s set ∧ p s) ↔ ∃ t ∈ set, ∃ s, Found below s [t] ∧ p s := by
  induction set with
  | nil => simp [exists_found_nil_iff]
  | cons t rest ih => simp [exists_found_cons_iff, exists_found_nil_iff, ih]

theorem AtTop.within {s : Selection} {set : List Selection} (h : AtTop s set) : Within s set := by
  induction h with
  | here member => exact .here member
  | @deeper set t member inner ih =>
    cases t with
    | field head children => exact absurd inner not_found_nil
    | spread name directives => exact absurd inner not_found_nil
    | inline condition directives children => exact .deeper member ih

theorem AtTop.mem_or_inline {s : Selection} {set : List Selection} (h : AtTop s set) :
    s ∈ set ∨ ∃ condition directives children,
      .inline condition directives children ∈ set ∧ AtTop s children := by
  cases h with
  | here member => exact .inl member
  | @deeper _ t member inner =>
    cases t with
    | field head children => exact absurd inner not_found_nil
    | spread name directives => exact absurd inner not_found_nil
    | inline condition directives children =>
      exact .inr ⟨condition, directives, children, member, inner⟩

/-- A variable stands in a value, at any depth of lists and objects. -/
inductive Value.Holds (x : Name) : Value → Prop where
  | var : Holds x (.var x)
  | item {items : List Value} {v : Value} (member : v ∈ items) (inner : Holds x v) :
      Holds x (.list items)
  | field {fields : List (Name × Value)} {name : Name} {v : Value} (member : (name, v) ∈ fields)
      (inner : Holds x v) : Holds x (.object fields)

def HeldByArguments (x : Name) (arguments : List Argument) : Prop :=
  ∃ a ∈ arguments, a.value.Holds x

def HeldByDirectives (x : Name) (directives : List Directive) : Prop :=
  ∃ d ∈ directives, HeldByArguments x d.arguments

/-- A variable stands in the arguments or directives of a selection itself, not below it. -/
def Selection.Carries (x : Name) : Selection → Prop
  | .field head _ => HeldByArguments x head.arguments ∨ HeldByDirectives x head.directives
  | .spread _ directives => HeldByDirectives x directives
  | .inline _ directives _ => HeldByDirectives x directives

/-- A variable stands in an argument of an operation, of one of its directives, or of what it
selects at any depth. -/
def Operation.Uses (op : Operation) (x : Name) : Prop :=
  HeldByDirectives x op.directives ∨ ∃ s, Within s op.selections ∧ s.Carries x

def Fragment.Uses (f : Fragment) (x : Name) : Prop :=
  HeldByDirectives x f.directives ∨ ∃ s, Within s f.selections ∧ s.Carries x

/-- A fragment is spread at any depth of an operation. -/
def Operation.LeadsTo (op : Operation) (name : Name) : Prop :=
  ∃ s, Within s op.selections ∧ s.spreadName? = some name

def Fragment.LeadsTo (f : Fragment) (name : Name) : Prop :=
  ∃ s, Within s f.selections ∧ s.spreadName? = some name

def Fragment.TopLeadsTo (f : Fragment) (name : Name) : Prop :=
  ∃ s, AtTop s f.selections ∧ s.spreadName? = some name

def Fragment.TopSelects (f : Fragment) (name : Name) : Prop :=
  ∃ s, AtTop s f.selections ∧ s.fieldName? = some name

theorem Fragment.TopLeadsTo.leadsTo {f : Fragment} {name : Name} (h : f.TopLeadsTo name) :
    f.LeadsTo name := by
  obtain ⟨s, hs, hname⟩ := h
  exact ⟨s, hs.within, hname⟩

end QueryShaping
