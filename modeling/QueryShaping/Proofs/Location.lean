import QueryShaping.ListQuery.Location
import QueryShaping.Proofs.Occurrence
import QueryShaping.Sweep

namespace QueryShaping

section

variable {α β : Type} {view : α → Option β}

theorem around?_fill {a : Around α β} {x : α} {b : β} (hx : view x = some b)
    (hbefore : ∀ y ∈ a.before, view y = none) :
    around? view (a.fill x) = some ⟨a.before, b, a.after⟩ := by
  obtain ⟨before, focus, after⟩ := a
  simp only [Around.fill] at hbefore ⊢
  induction before with
  | nil => simp [around?, hx]
  | cons y before ih =>
    have hy := hbefore y List.mem_cons_self
    have hrest := ih fun z hz => hbefore z (List.mem_cons_of_mem _ hz)
    simp [around?, hy, hrest]

theorem around?_eq_some {l : List α} {a : Around α β} (h : around? view l = some a) :
    (∃ x, l = a.fill x ∧ view x = some a.focus) ∧ ∀ y ∈ a.before, view y = none := by
  induction l generalizing a with
  | nil => simp [around?] at h
  | cons y rest ih =>
    cases hy : view y with
    | some b =>
      simp only [around?, hy, Option.some.injEq] at h
      subst a
      exact ⟨⟨y, rfl, hy⟩, by simp⟩
    | none =>
      simp only [around?, hy, Option.map_eq_some_iff] at h
      obtain ⟨r, hr, rfl⟩ := h
      obtain ⟨⟨x, hl, hx⟩, hbefore⟩ := ih hr
      refine ⟨⟨x, by simp [hl, Around.fill], hx⟩, ?_⟩
      intro z hz
      rcases List.mem_cons.mp hz with rfl | hz
      · exact hy
      · exact hbefore z hz

theorem Around.mem_fill_iff {a : Around α β} {x y : α} :
    y ∈ a.fill x ↔ y = x ∨ y ∈ a.before ++ a.after := by
  simp [Around.fill, or_left_comm]

theorem around?_focus (l : List α) :
    (around? view l).map (·.focus) = (l.filterMap view).head? := by
  induction l with
  | nil => rfl
  | cons y rest ih =>
    cases hy : view y with
    | some b => simp [around?, hy]
    | none => simp [around?, hy, ← ih, Function.comp_def]

end

/-- A list field with other selections under its items. -/
def ListField.withItems (f : ListField) (items : List Selection) : ListField :=
  ⟨f.head, ⟨f.children.before, (f.children.focus.1, items), f.children.after⟩⟩

def ListField.selection (f : ListField) : Selection :=
  .field f.head (f.children.fill (.field f.children.focus.1 f.children.focus.2))

/-- An operation with other selections under the items of its list field. -/
def ListOperation.withItems (op : ListOperation) (items : List Selection) : ListOperation :=
  ⟨{ op.operation with selections := op.roots.fill (op.roots.focus.withItems items).selection },
    ⟨op.roots.before, op.roots.focus.withItems items, op.roots.after⟩⟩

/-- A relation between selection sets that goes from below a field to the selections it stands among
goes from the items to what the operation selects. -/
theorem ListOperation.withItems_rel {R : List Selection → List Selection → Prop}
    {op : ListOperation} {items items' : List Selection}
    (fill : ∀ {β : Type} {a : Around Selection β} {head below below'}, R below below' →
      R (a.fill (.field head below)) (a.fill (.field head below'))) (h : R items items') :
    R (op.withItems items).operation.selections (op.withItems items').operation.selections :=
  fill (fill h)

theorem Selection.fieldNamed?_eq_some {name : Name} {s : Selection}
    {field : FieldHead × List Selection} (h : s.fieldNamed? name = some field) :
    s = .field field.1 field.2 ∧ field.1.name = name := by
  cases s with
  | field head children =>
    simp only [Selection.fieldNamed?, Option.ite_none_right_eq_some, Option.some.injEq] at h
    obtain ⟨hname, rfl⟩ := h
    exact ⟨rfl, by simpa using hname⟩
  | spread fragment directives => simp [Selection.fieldNamed?] at h
  | inline condition directives children => simp [Selection.fieldNamed?] at h

theorem ListField.of?_eq_some {s : ListSettings} {root : Selection} {f : ListField}
    (h : ListField.of? s root = some f) :
    f.selection = root ∧ s.admits f.head.name = true ∧
      f.children.focus.1.name = s.itemsField ∧
      ∀ t ∈ f.children.before, t.fieldNamed? s.itemsField = none := by
  cases root with
  | field head children =>
    simp only [ListField.of?, Option.ite_none_right_eq_some, Option.map_eq_some_iff] at h
    obtain ⟨hadmits, a, ha, rfl⟩ := h
    obtain ⟨⟨x, hchildren, hx⟩, hbefore⟩ := around?_eq_some ha
    obtain ⟨hfield, hname⟩ := Selection.fieldNamed?_eq_some hx
    refine ⟨?_, hadmits, hname, hbefore⟩
    rw [ListField.selection, hchildren, hfield]
  | spread fragment directives => simp [ListField.of?] at h
  | inline condition directives children => simp [ListField.of?] at h

theorem ListField.of?_withItems {s : ListSettings} {root : Selection} {f : ListField}
    (h : ListField.of? s root = some f) (items : List Selection) :
    ListField.of? s (f.withItems items).selection = some (f.withItems items) := by
  obtain ⟨_, hadmits, hname, hbefore⟩ := ListField.of?_eq_some h
  have hview : Selection.fieldNamed? s.itemsField (.field f.children.focus.1 items) =
      some (f.children.focus.1, items) := by
    simp [Selection.fieldNamed?, hname]
  simp [ListField.of?, ListField.selection, ListField.withItems, hadmits,
    around?_fill (a := ⟨f.children.before, (f.children.focus.1, items), f.children.after⟩) hview
      hbefore]

theorem ListOperation.of?_eq_some {s : ListSettings} {op : Operation} {lop : ListOperation}
    (h : ListOperation.of? s op = some lop) :
    lop.operation = op ∧ op.selections = lop.roots.fill lop.roots.focus.selection ∧
      ListField.of? s lop.roots.focus.selection = some lop.roots.focus ∧
      ∀ t ∈ lop.roots.before, ListField.of? s t = none := by
  simp only [ListOperation.of?, Option.map_eq_some_iff] at h
  obtain ⟨a, ha, rfl⟩ := h
  obtain ⟨⟨x, hselections, hx⟩, hbefore⟩ := around?_eq_some ha
  obtain ⟨rfl, _⟩ := ListField.of?_eq_some hx
  exact ⟨rfl, hselections, hx, hbefore⟩

theorem ListOperation.of?_withItems {s : ListSettings} {op : Operation} {lop : ListOperation}
    (h : ListOperation.of? s op = some lop) (items : List Selection) :
    ListOperation.of? s (lop.withItems items).operation = some (lop.withItems items) := by
  obtain ⟨_, _, hfocus, hbefore⟩ := ListOperation.of?_eq_some h
  have hfield := ListField.of?_withItems hfocus items
  simp [ListOperation.of?, ListOperation.withItems, around?_fill (a := lop.roots) hfield hbefore]

theorem ListOperation.of?_keepVariables {s : ListSettings} {op : Operation} {lop : ListOperation}
    (h : ListOperation.of? s op = some lop) (live : List Name) :
    ListOperation.of? s (op.keepVariables live) = some ⟨op.keepVariables live, lop.roots⟩ := by
  simp only [ListOperation.of?, Option.map_eq_some_iff] at h
  obtain ⟨a, ha, rfl⟩ := h
  simp [ListOperation.of?, Operation.keepVariables, ha]

theorem ListOperation.withItems_items {s : ListSettings} {op : Operation} {lop : ListOperation}
    (h : ListOperation.of? s op = some lop) :
    (lop.withItems lop.roots.focus.children.focus.2).operation = lop.operation := by
  obtain ⟨hop, hselections, _⟩ := ListOperation.of?_eq_some h
  rw [← hop] at hselections
  rw [ListOperation.withItems, ListField.withItems, ← hselections]

theorem ListOperation.leadsTo_withItems {op : ListOperation} {items : List Selection} {name : Name}
    (h : name ∈ spreadNames items) : (op.withItems items).operation.LeadsTo name := by
  obtain ⟨s, hs, hname⟩ := List.mem_filterMap.mp h
  refine ⟨s, ?_, hname⟩
  apply Found.deeper (t := (op.roots.focus.withItems items).selection)
  · simp [ListOperation.withItems, Around.fill]
  · apply Found.deeper (t := .field op.roots.focus.children.focus.1 items)
    · simp [ListField.selection, ListField.withItems, Selection.children, Around.fill]
    · exact .here hs

namespace ListQuery

/-- A list query stands where another does: the same selections are around the same list field, and
the same children around its items. Only what the items select may differ. -/
def SamePlace (q q' : ListQuery) : Prop :=
  q'.definitions.focus.roots = (q.definitions.focus.withItems q'.items).roots

theorem eq_fill_of_of?_eq_some {s : ListSettings} {d : Document} {q : ListQuery}
    (h : of? s d = some q) :
    d.definitions = q.definitions.fill (.operation q.definitions.focus.operation) ∧
      (∀ x ∈ q.definitions.before, x.operation? = none) ∧
      ListOperation.of? s q.definitions.focus.operation = some q.definitions.focus := by
  unfold of? at h
  split at h
  · simp at h
  · rename_i ops hops
    simp only [Option.map_eq_some_iff] at h
    obtain ⟨lop, hlop, rfl⟩ := h
    obtain ⟨⟨x, hd, hx⟩, hbefore⟩ := around?_eq_some hops
    obtain ⟨hop, _⟩ := ListOperation.of?_eq_some hlop
    refine ⟨?_, hbefore, by rw [hop]; exact hlop⟩
    cases x with
    | operation op =>
      simp only [Definition.operation?, Option.some.injEq] at hx
      rw [hd, hop, ← hx]
      rfl
    | fragment f => simp [Definition.operation?] at hx
    | typeSystem t => simp [Definition.operation?] at hx

theorem withItems_items {s : ListSettings} {d : Document} {q : ListQuery} (h : of? s d = some q) :
    q.withItems q.items = d := by
  obtain ⟨hd, _, hop⟩ := eq_fill_of_of?_eq_some h
  have hself : (q.definitions.focus.withItems q.items).operation = q.definitions.focus.operation :=
    ListOperation.withItems_items hop
  calc q.withItems q.items
      = ⟨q.definitions.fill (.operation (q.definitions.focus.withItems q.items).operation)⟩ := rfl
    _ = ⟨d.definitions⟩ := by rw [hself, hd]

theorem operation_mem {s : ListSettings} {d : Document} {q : ListQuery} (h : of? s d = some q) :
    q.definitions.focus.operation ∈ d.operations := by
  obtain ⟨hd, _, _⟩ := eq_fill_of_of?_eq_some h
  simp [Document.operations, hd, Around.fill, Definition.operation?]

theorem exists_of?_eq_some {s : ListSettings} {d : Document} {op : Operation} {lop : ListOperation}
    (hfirst : d.operations.head? = some op) (hop : ListOperation.of? s op = some lop) :
    ∃ q, of? s d = some q ∧ q.definitions.focus = lop := by
  rw [Document.operations, ← around?_focus] at hfirst
  obtain ⟨a, ha, rfl⟩ := Option.map_eq_some_iff.mp hfirst
  exact ⟨⟨⟨a.before, lop, a.after⟩⟩, by simp [of?, ha, hop], rfl⟩

theorem operations_withItems {s : ListSettings} {d : Document} {q : ListQuery}
    (h : of? s d = some q) (items : List Selection) :
    (q.withItems items).operations =
      (q.definitions.focus.withItems items).operation :: d.operations.tail := by
  obtain ⟨hd, hbefore, _⟩ := eq_fill_of_of?_eq_some h
  have hnone := List.filterMap_eq_nil_iff.mpr hbefore
  have htail : d.operations.tail = q.definitions.after.filterMap Definition.operation? := by
    simp [Document.operations, hd, Around.fill, hnone, Definition.operation?]
  rw [htail]
  simp only [withItems, Document.operations, Around.fill, List.filterMap_append, hnone,
    List.nil_append]
  rfl

theorem operations_eq_cons {s : ListSettings} {d : Document} {q : ListQuery}
    (h : of? s d = some q) : d.operations = q.definitions.focus.operation :: d.operations.tail := by
  obtain ⟨_, _, hop⟩ := eq_fill_of_of?_eq_some h
  have hitems := operations_withItems h q.items
  rw [withItems_items h] at hitems
  rw [hitems, List.tail_cons]
  exact congrArg (· :: d.operations.tail) (ListOperation.withItems_items hop)

theorem fragments_withItems {s : ListSettings} {d : Document} {q : ListQuery}
    (h : of? s d = some q) (items : List Selection) :
    (q.withItems items).fragments = d.fragments := by
  obtain ⟨hd, _, _⟩ := eq_fill_of_of?_eq_some h
  simp only [withItems, Document.fragments, hd, Around.fill, List.filterMap_append]
  rfl

end ListQuery

def plainListQuery (items : List Selection) (fragments : List Fragment) : ListQuery :=
  let roots : Around Selection ListField :=
    ⟨[], ⟨⟨none, "products", [], []⟩, ⟨[], (⟨none, "items", [], []⟩, items), []⟩⟩, []⟩
  ⟨⟨[], ⟨⟨.query, none, [], [], roots.fill roots.focus.selection⟩, roots⟩,
    fragments.map .fragment⟩⟩

/-- A document with such a list query and fragment definitions after it. -/
def plainListDocument (items : List Selection) (fragments : List Fragment) : Document :=
  (plainListQuery items fragments).withItems items

theorem of?_plainListDocument (items : List Selection) (fragments : List Fragment) :
    ListQuery.of? {} (plainListDocument items fragments) = some (plainListQuery items fragments) :=
  rfl

end QueryShaping
