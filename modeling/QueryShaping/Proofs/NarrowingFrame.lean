import QueryShaping.Proofs.CustomLeavesKept

namespace QueryShaping

/-- Definitions thinned out, in order: each operation with some of its variable definitions, and
some of the fragment definitions. These may select something else only under the given names. -/
inductive Thinned (trimmed : List Name) : List Definition → List Definition → Prop where
  | nil : Thinned trimmed [] []
  | operation {op : Operation} {variableDefs : List VariableDefinition}
      {rest left : List Definition} (fewer : variableDefs.Sublist op.variableDefs)
      (others : Thinned trimmed rest left) :
      Thinned trimmed (.operation op :: rest)
        (.operation { op with variableDefs := variableDefs } :: left)
  | typeSystem {t : TypeSystemDefinition} {rest left : List Definition}
      (others : Thinned trimmed rest left) :
      Thinned trimmed (.typeSystem t :: rest) (.typeSystem t :: left)
  | fragment {f : Fragment} {selections : List Selection} {rest left : List Definition}
      (same : f.name ∉ trimmed → selections = f.selections) (others : Thinned trimmed rest left) :
      Thinned trimmed (.fragment f :: rest)
        (.fragment { f with selections := selections } :: left)
  | dropped {f : Fragment} {rest left : List Definition} (others : Thinned trimmed rest left) :
      Thinned trimmed (.fragment f :: rest) left

section

variable {trimmed : List Name} {defs defs' defs'' : List Definition}

theorem Thinned.trans (h : Thinned trimmed defs defs') (h' : Thinned trimmed defs' defs'') :
    Thinned trimmed defs defs'' := by
  induction h generalizing defs'' with
  | nil => exact h'
  | operation fewer _ ih =>
    cases h' with
    | operation fewer' others' => exact .operation (fewer'.trans fewer) (ih others')
  | typeSystem _ ih =>
    cases h' with
    | typeSystem others' => exact .typeSystem (ih others')
  | fragment same _ ih =>
    cases h' with
    | fragment same' others' =>
      refine .fragment (fun hname => ?_) (ih others')
      rw [same' hname, same hname]
    | dropped others' => exact .dropped (ih others')
  | dropped _ ih => exact .dropped (ih h')

theorem thinned_mapFragment {change : Fragment → Fragment} (defs : List Definition)
    (selections : ∀ f, change f = { f with selections := (change f).selections })
    (same : ∀ f, f.name ∉ trimmed → change f = f) :
    Thinned trimmed defs (defs.map (·.mapFragment change)) := by
  induction defs with
  | nil => exact .nil
  | cons x rest ih =>
    cases x with
    | operation op => exact .operation (.refl _) ih
    | typeSystem t => exact .typeSystem ih
    | fragment f =>
      rw [List.map_cons, Definition.mapFragment, selections f]
      refine .fragment (fun hname => ?_) ih
      rw [same f hname]

theorem Document.thinned_dropUnusedFragments (d : Document) :
    Thinned trimmed d.definitions d.dropUnusedFragments.definitions := by
  unfold dropUnusedFragments
  generalize d.liveFragments = live
  induction d.definitions with
  | nil => exact .nil
  | cons x rest ih =>
    cases x with
    | operation op => exact .operation (.refl _) ih
    | typeSystem t => exact .typeSystem ih
    | fragment f =>
      simp only [List.filter_cons]
      split
      · exact .fragment (fun _ => rfl) ih
      · exact .dropped ih

theorem Document.thinned_dropUnusedVariables (d : Document) :
    Thinned trimmed d.definitions d.dropUnusedVariables.definitions := by
  unfold dropUnusedVariables
  generalize d.liveVariables = live
  induction d.definitions with
  | nil => exact .nil
  | cons x rest ih =>
    cases x with
    | operation op => exact .operation List.filter_sublist ih
    | typeSystem t => exact .typeSystem ih
    | fragment f => exact .fragment (fun _ => rfl) ih

theorem Document.thinned_sweep (d : Document) :
    Thinned trimmed d.definitions d.sweep.definitions :=
  d.thinned_dropUnusedFragments.trans d.dropUnusedFragments.thinned_dropUnusedVariables

end

theorem around?_eq_none_iff {α β : Type} {view : α → Option β} {l : List α} :
    around? view l = none ↔ ∀ y ∈ l, view y = none := by
  rw [← List.filterMap_eq_nil_iff, ← List.head?_eq_none_iff, ← around?_focus, Option.map_eq_none_iff]

theorem forall_fieldNamed?_eq_none_iff {name : Name} {set : List Selection} :
    (∀ t ∈ set, t.fieldNamed? name = none) ↔ name ∉ fieldNames set := by
  have hone : ∀ t : Selection, t.fieldNamed? name = none ↔ t.fieldName? ≠ some name := by
    intro t
    cases t <;> simp [Selection.fieldNamed?, Selection.fieldName?]
  simp [hone, fieldNames]

/-- A list query is the first of its document: it is in the first operation, in the first field at
its root that is admitted and has items, and its items are the first field of their name there. -/
structure ListQuery.ComesFirst (s : ListSettings) (q : ListQuery) : Prop where
  operation : ∀ x ∈ q.definitions.before, x.operation? = none
  admitted : s.admits q.definitions.focus.roots.focus.head.name = true
  roots : ∀ head children, .field head children ∈ q.definitions.focus.roots.before →
    s.admits head.name = true → s.itemsField ∉ fieldNames children
  named : q.definitions.focus.roots.focus.children.focus.1.name = s.itemsField
  items : s.itemsField ∉ fieldNames q.definitions.focus.roots.focus.children.before

theorem ListField.of?_field_eq_none_iff {s : ListSettings} {head : FieldHead}
    {children : List Selection} :
    ListField.of? s (.field head children) = none ↔
      (s.admits head.name = true → s.itemsField ∉ fieldNames children) := by
  rw [← forall_fieldNamed?_eq_none_iff, ← around?_eq_none_iff]
  by_cases hadmits : s.admits head.name = true <;> simp [ListField.of?, hadmits]

theorem ListQuery.comesFirst_of_of?_eq_some {s : ListSettings} {d : Document} {q : ListQuery}
    (h : of? s d = some q) : q.ComesFirst s := by
  obtain ⟨_, hoperation, hop⟩ := eq_fill_of_of?_eq_some h
  obtain ⟨_, _, hfield, hroots⟩ := ListOperation.of?_eq_some hop
  obtain ⟨_, hadmitted, hnamed, hitems⟩ := ListField.of?_eq_some hfield
  exact {
    operation := hoperation
    admitted := hadmitted
    roots := fun head children hmem =>
      ListField.of?_field_eq_none_iff.mp (hroots (.field head children) hmem)
    named := hnamed
    items := forall_fieldNamed?_eq_none_iff.mp hitems }

namespace Request

variable {s : ListSettings} {r : Request} {defs : List Fragment} {items : List Selection}

theorem narrowItems_snd_subset : (r.narrowItems s defs items).2 ⊆ spreadNames items := by
  intro name hmem
  rcases leavesBare_or_left s r defs items with hbare | hleft
  · rw [narrowItems_snd_of_bare hbare, Option.mem_toList] at hmem
    exact List.mem_of_find?_eq_some hmem
  · rw [narrowItems_of_left hleft] at hmem
    exact (List.mem_filter.mp hmem).1

theorem trimmed_of_not_spread {f : Fragment}
    (h : f.name ∉ spreadNames (r.narrowedItems s defs items)) :
    r.trimmed s defs items f = f := by
  apply trimmed_of_not_mem
  intro hmem
  exact h (mem_spreadNames_narrowedItems_iff.mpr ⟨hmem, narrowItems_snd_subset hmem⟩)

theorem thinned_sweep_narrowed (d : Document) (q : ListQuery) :
    Thinned (spreadNames (r.narrowedItems s d.fragments q.items))
      (q.withItems (r.narrowedItems s d.fragments q.items)).definitions
      (r.narrowed s d q).sweep.definitions := by
  rw [narrowed_eq]
  exact (thinned_mapFragment _ trimmed_eq fun _ => trimmed_of_not_spread).trans
    (Document.thinned_sweep _)

end Request

/-- What narrowing changes in a document, if anything: the selections under the items field of its
list query, variable definitions, and fragment definitions, of which some are dropped and those
that the narrowed items spread may select something else. Everything else stays, in order. -/
theorem narrow_changes_only (s : ListSettings) (columns : List Column) (d : Document) :
    d.narrow s columns = d ∨
      ∃ q q' : ListQuery, q.ComesFirst s ∧ d = q.withItems q.items ∧
        ListQuery.of? s (d.narrow s columns) = some q' ∧
        Thinned (spreadNames q'.items) (q.withItems q'.items).definitions
          (d.narrow s columns).definitions := by
  by_cases asked : columns = []
  · exact .inl (by simp [Document.narrow, asked])
  cases located : ListQuery.of? s d with
  | none => exact .inl (by simp [Document.narrow, located])
  | some q =>
    obtain ⟨q', hq', _, hitems⟩ := Request.of?_sweep_narrowed
      (r := Request.ofColumns s.customField columns) located
    refine .inr ⟨q, q', ListQuery.comesFirst_of_of?_eq_some located,
      (ListQuery.withItems_items located).symm, ?_, ?_⟩
    · rw [Document.narrow_eq asked located, hq']
    · rw [Document.narrow_eq asked located, hitems]
      exact Request.thinned_sweep_narrowed d q

end QueryShaping
