import QueryShaping.ListQuery.Location
import QueryShaping.ListQuery.Provision
import QueryShaping.ListQuery.Request
import QueryShaping.Sweep

namespace QueryShaping

def selectsContent (selections : List Selection) : Bool :=
  selections.any fun s => s.fieldName? != some typenameField

namespace Request

variable (s : ListSettings) (r : Request)

def keptLeaves (children : List Selection) : List Selection :=
  children.filter fun c => c.fieldName?.any r.custom.contains

def narrowField (head : FieldHead) (children : List Selection) : Option Selection :=
  if head.name == typenameField || r.asksPlain head.name then some (.field head children)
  else if head.name == s.customField && r.asksCustom then
    if (r.keptLeaves children).isEmpty then none else some (.field head (r.keptLeaves children))
  else none

/-- What is left of a selection of the items, spreads apart: the identity stays as it is. -/
def narrowItem : Selection → Option Selection
  | .field head children =>
    if head.name == s.identityField then some (.field head children)
    else r.narrowField s head children
  | .spread _ _ => none
  | .inline condition directives children => some (.inline condition directives children)

def providedBy (defs : List Fragment) (fragment : Name) : Bool :=
  (providedFields defs fragment).any (r.asks s.customField)

def narrowPart (defs : List Fragment) : Selection → Option Selection
  | .field head children => r.narrowField s head children
  | .spread fragment directives =>
    if r.providedBy s defs fragment then some (.spread fragment directives) else none
  | .inline condition directives children => some (.inline condition directives children)

/-- What is left of a fragment. If nothing was asked for in it, its identity field stands in; a
fragment without one is left whole. -/
def narrowFragment (defs : List Fragment) (f : Fragment) : Fragment :=
  let kept := f.selections.filterMap (r.narrowPart s defs)
  if selectsContent kept then { f with selections := kept }
  else
    match firstField? s.identityField f.selections with
    | some identity => { f with selections := identity :: kept }
    | none => f

def missing (items : List Selection) : List Name :=
  (r.plain ++ if r.asksCustom then [s.customField] else []).filter fun name => !hasField name items

def needs (defs : List Fragment) (items : List Selection) (fragment : Name) : Bool :=
  (r.missing s items).any (provides defs fragment)

def firstSpreads (needed : List Name) : List Selection → List Selection
  | [] => []
  | .spread fragment directives :: rest =>
    if needed.contains fragment then
      .spread fragment directives :: firstSpreads (needed.filter (· != fragment)) rest
    else firstSpreads needed rest
  | _ :: rest => firstSpreads needed rest

/-- The items that are left, and the fragments spread among them. Where nothing would be left, the
first fragment that provides the identity is kept, or else the identity field is added. -/
def narrowItems (defs : List Fragment) (items : List Selection) : List Selection × List Name :=
  let kept := items.filterMap (r.narrowItem s)
  let needed := (spreadNames items).filter (r.needs s defs items)
  if needed.isEmpty && !selectsContent kept then
    match (spreadNames items).find? (provides defs · s.identityField) with
    | some fragment => (kept, [fragment])
    | none => (if Name.isValid s.identityField then .leaf s.identityField :: kept else kept, [])
  else (kept, needed)

def narrowed (d : Document) (q : ListQuery) : Document :=
  let (kept, needed) := r.narrowItems s d.fragments q.items
  let trim (f : Fragment) : Fragment :=
    if needed.contains f.name then r.narrowFragment s d.fragments f else f
  ⟨(q.withItems (kept ++ firstSpreads needed q.items)).definitions.map (·.mapFragment trim)⟩

end Request

namespace Document

/-- Narrows the list query of a document to columns. Without columns, or without a list query,
the document stays as it is. -/
def narrow (s : ListSettings) (columns : List Column) (d : Document) : Document :=
  if columns.isEmpty then d
  else
    match ListQuery.of? s d with
    | none => d
    | some q => ((Request.ofColumns s.customField columns).narrowed s d q).sweep

end Document

end QueryShaping
