import QueryShaping.Proofs.Location
import QueryShaping.Proofs.Trimming

namespace QueryShaping

theorem Document.operations_mapFragment (d : Document) (change : Fragment → Fragment) :
    (Document.mk (d.definitions.map (·.mapFragment change))).operations = d.operations := by
  simp only [Document.operations, List.filterMap_map]
  apply List.filterMap_congr
  intro x _
  cases x <;> rfl

theorem Document.fragments_mapFragment (d : Document) (change : Fragment → Fragment) :
    (Document.mk (d.definitions.map (·.mapFragment change))).fragments =
      d.fragments.map change := by
  simp only [Document.fragments, List.filterMap_map, List.map_filterMap]
  apply List.filterMap_congr
  intro x _
  cases x <;> rfl

namespace Request

variable {s : ListSettings} {r : Request} {defs : List Fragment} {items : List Selection}

theorem mem_plain_ofColumns_iff {object x : Name} {columns : List Column} :
    x ∈ (ofColumns object columns).plain ↔
      ∃ c ∈ columns, c.isCustom = false ∧ c.name = x ∧ x ≠ typenameField := by
  simp only [ofColumns, List.mem_map, List.mem_filter, Bool.and_eq_true, Bool.not_eq_true',
    bne_iff_ne]
  constructor
  · intro h
    obtain ⟨c, ⟨hc, hplain, hne⟩, rfl⟩ := h
    exact ⟨c, hc, hplain, rfl, hne⟩
  · intro h
    obtain ⟨c, hc, hplain, rfl, hne⟩ := h
    exact ⟨c, ⟨hc, hplain, hne⟩, rfl⟩

theorem mem_custom_ofColumns_iff {object leaf : Name} {columns : List Column} :
    leaf ∈ (ofColumns object columns).custom ↔
      ∃ c ∈ columns, c.isCustom = true ∧ customLeaf object c.name = leaf := by
  simp only [ofColumns, List.mem_map, List.mem_filter, and_assoc]

/-- The items of the narrowed list query: what stays of them, then the spreads still needed. -/
def narrowedItems (s : ListSettings) (r : Request) (defs : List Fragment)
    (items : List Selection) : List Selection :=
  (r.narrowItems s defs items).1 ++ firstSpreads (r.narrowItems s defs items).2 items

/-- A definition of the narrowed document: trimmed if the narrowed items spread it. -/
def trimmed (s : ListSettings) (r : Request) (defs : List Fragment) (items : List Selection)
    (f : Fragment) : Fragment :=
  if (r.narrowItems s defs items).2.contains f.name then r.narrowFragment s defs f else f

theorem narrowed_eq (d : Document) (q : ListQuery) :
    r.narrowed s d q = ⟨(q.withItems (r.narrowedItems s d.fragments q.items)).definitions.map
      (·.mapFragment (r.trimmed s d.fragments q.items))⟩ := rfl

theorem trimmed_of_mem {f : Fragment} (h : f.name ∈ (r.narrowItems s defs items).2) :
    r.trimmed s defs items f = r.narrowFragment s defs f := by
  simp [trimmed, h]

theorem trimmed_of_not_mem {f : Fragment} (h : f.name ∉ (r.narrowItems s defs items).2) :
    r.trimmed s defs items f = f := by
  simp [trimmed, h]

theorem trimmed_eq (f : Fragment) : r.trimmed s defs items f =
    { f with selections := (r.trimmed s defs items f).selections } := by
  unfold trimmed
  split
  · exact narrowFragment_eq f
  · rfl

theorem name_trimmed (f : Fragment) : (r.trimmed s defs items f).name = f.name := by
  rw [trimmed_eq]

theorem leftOf_trimmed (f : Fragment) {kept : Selection}
    (h : kept ∈ (r.trimmed s defs items f).selections) : ∃ t ∈ f.selections, kept.LeftOf t := by
  unfold trimmed at h
  split at h
  · exact leftOf_narrowFragment f h
  · exact ⟨kept, h, .whole⟩

theorem topLeadsTo_trimmed {f : Fragment} {next x : Name} (hx : r.asks s.customField x = true)
    (hleads : f.TopLeadsTo next) (hnext : Provides defs next x) :
    (r.trimmed s defs items f).TopLeadsTo next := by
  obtain ⟨selection, htop, hname⟩ := hleads
  unfold trimmed
  split
  · obtain ⟨directives, rfl⟩ := Selection.spreadName?_eq_some_iff.mp hname
    have hby : r.providedBy s defs next = true := providedBy_iff.mpr ⟨x, hx, hnext⟩
    exact ⟨_, atTop_narrowFragment htop (by simp [narrowPart, hby])
      (by simp [Selection.fieldName?]), rfl⟩
  · exact ⟨selection, htop, hname⟩

/-- A field asked for is provided as before by the trimmed definitions: every link of a chain to it
is a field asked for, an inline fragment, or a spread of a fragment that provides it. -/
theorem provides_trimmed {fragment x : Name} (h : Provides defs fragment x) (hx : x ∈ r.plain)
    (hne : x ≠ typenameField) : Provides (defs.map (r.trimmed s defs items)) fragment x := by
  apply h.map name_trimmed
  · intro f _ hselects
    obtain ⟨selection, htop, hname⟩ := hselects
    unfold trimmed
    split
    · obtain ⟨head, children, rfl, rfl⟩ := Selection.fieldName?_eq_some_iff.mp hname
      exact ⟨_, atTop_narrowFragment htop (narrowField_of_plain hx) (by simpa [hname] using hne),
        hname⟩
    · exact ⟨selection, htop, hname⟩
  · intro f _ next hleads hnext
    exact topLeadsTo_trimmed (by simp [asks, asksPlain, hx]) hleads hnext

theorem mem_missing_iff {x : Name} :
    x ∈ r.missing s items ↔
      (x ∈ r.plain ∨ r.asksCustom = true ∧ x = s.customField) ∧ hasField x items = false := by
  unfold missing
  cases r.asksCustom <;> simp [or_and_right]

theorem needs_iff {name : Name} :
    r.needs s defs items name = true ↔ ∃ x ∈ r.missing s items, Provides defs name x := by
  simp [needs, provides_iff]

theorem narrowItem_of_plain {selection : Selection} {x : Name}
    (hname : selection.fieldName? = some x) (hx : x ∈ r.plain) :
    r.narrowItem s selection = some selection := by
  obtain ⟨head, children, rfl, rfl⟩ := Selection.fieldName?_eq_some_iff.mp hname
  simp [narrowItem, narrowField_of_plain hx]

theorem kept_of_narrowItem {selection kept : Selection}
    (h : r.narrowItem s selection = some kept) : Kept r kept selection := by
  cases selection with
  | field head children =>
    simp only [narrowItem] at h
    split at h
    · cases h
      exact .whole
    · exact kept_of_narrowField h
  | spread name directives => cases h
  | inline condition directives children =>
    cases h
    exact .whole

theorem leftOf_of_narrowItem {selection kept : Selection}
    (h : r.narrowItem s selection = some kept) : kept.LeftOf selection :=
  (kept_of_narrowItem h).leftOf

theorem narrowItem_of_identity {selection : Selection}
    (hname : selection.fieldName? = some s.identityField) :
    r.narrowItem s selection = some selection := by
  obtain ⟨head, children, rfl, hhead⟩ := Selection.fieldName?_eq_some_iff.mp hname
  simp [narrowItem, hhead]

theorem filter_filterMap_narrowItem {x : Name}
    (hself : ∀ selection : Selection, selection.fieldName? = some x →
      r.narrowItem s selection = some selection) :
    (items.filterMap (r.narrowItem s)).filter (Selection.isFieldNamed x) =
      items.filter (Selection.isFieldNamed x) := by
  induction items with
  | nil => rfl
  | cons selection rest ih =>
    by_cases hname : selection.fieldName? = some x
    · simp [hself selection hname, Selection.isFieldNamed, hname, ih]
    · cases hkept : r.narrowItem s selection with
      | none => simp [hkept, Selection.isFieldNamed, hname, ih]
      | some kept =>
        have hsame := (leftOf_of_narrowItem hkept).fieldName?_eq
        simp [hkept, Selection.isFieldNamed, hname, hsame, ih]

theorem mem_spreadNames_firstSpreads_iff {needed : List Name} {name : Name} :
    name ∈ spreadNames (firstSpreads needed items) ↔ name ∈ needed ∧ name ∈ spreadNames items := by
  induction items generalizing needed with
  | nil => simp [firstSpreads, spreadNames]
  | cons selection rest ih =>
    cases selection with
    | field head children =>
      simp [firstSpreads, mem_spreadNames_cons_iff, Selection.spreadName?, ih]
    | inline condition directives children =>
      simp [firstSpreads, mem_spreadNames_cons_iff, Selection.spreadName?, ih]
    | spread fragment directives =>
      by_cases hname : fragment = name
      · subst name
        by_cases hneeded : fragment ∈ needed <;>
          simp [firstSpreads, mem_spreadNames_cons_iff, Selection.spreadName?, ih, hneeded]
      · by_cases hneeded : fragment ∈ needed <;>
          simp [firstSpreads, mem_spreadNames_cons_iff, Selection.spreadName?, ih, hneeded, hname,
            Ne.symm hname]

theorem firstSpreads_sublist (needed : List Name) (items : List Selection) :
    (firstSpreads needed items).Sublist (items.filter (·.spreadName?.isSome)) := by
  induction items generalizing needed with
  | nil => exact .slnil
  | cons selection rest ih =>
    cases selection with
    | field head children => exact ih needed
    | inline condition directives children => exact ih needed
    | spread fragment directives =>
      simp only [firstSpreads]
      split
      · exact (ih _).cons_cons _
      · exact (ih needed).cons _

theorem exists_of_mem_firstSpreads {needed : List Name} {selection : Selection}
    (h : selection ∈ firstSpreads needed items) :
    ∃ fragment directives, selection = .spread fragment directives := by
  have hspread := (List.mem_filter.mp ((firstSpreads_sublist needed items).subset h)).2
  obtain ⟨fragment, hname⟩ := Option.isSome_iff_exists.mp hspread
  exact ⟨fragment, Selection.spreadName?_eq_some_iff.mp hname⟩

theorem fieldName?_of_mem_firstSpreads {needed : List Name} {selection : Selection}
    (h : selection ∈ firstSpreads needed items) : selection.fieldName? = none := by
  obtain ⟨fragment, directives, rfl⟩ := exists_of_mem_firstSpreads h
  rfl

theorem hasField_append_firstSpreads {x : Name} {kept : List Selection} {needed : List Name} :
    hasField x (kept ++ firstSpreads needed items) = hasField x kept := by
  have hnone : hasField x (firstSpreads needed items) = false := by
    apply List.any_eq_false.mpr
    intro selection hmem
    simp [Selection.isFieldNamed, fieldName?_of_mem_firstSpreads hmem]
  rw [hasField, List.any_append, ← hasField, ← hasField, hnone, Bool.or_false]

theorem narrowItems_of_left (h : selectsContent (items.filterMap (r.narrowItem s)) = true ∨
    ∃ name ∈ spreadNames items, r.needs s defs items name = true) :
    r.narrowItems s defs items =
      (items.filterMap (r.narrowItem s), (spreadNames items).filter (r.needs s defs items)) := by
  unfold narrowItems
  dsimp only
  rw [if_neg]
  simp only [Bool.and_eq_true, List.isEmpty_iff, List.filter_eq_nil_iff, Bool.not_eq_true',
    not_and]
  intro hnone hleft
  rcases h with h | ⟨name, hmem, hneeds⟩
  · simp [h] at hleft
  · exact hnone name hmem hneeds

/-- What is left of the items besides spreads has the identity added in front only if nothing else
gives content, no fragment provides it, and its name can stand in a document. -/
theorem narrowItems_fst_cases (s : ListSettings) (r : Request) (defs : List Fragment)
    (items : List Selection) :
    (r.narrowItems s defs items).1 = items.filterMap (r.narrowItem s) ∨
      (r.narrowItems s defs items).1 =
          .leaf s.identityField :: items.filterMap (r.narrowItem s) ∧
        (∀ name ∈ spreadNames items, ¬ r.needs s defs items name = true) ∧
        selectsContent (items.filterMap (r.narrowItem s)) = false ∧
        (∀ name ∈ spreadNames items, ¬ provides defs name s.identityField = true) ∧
        Name.isValid s.identityField = true := by
  unfold narrowItems
  dsimp only
  split
  · rename_i hbare
    simp only [Bool.and_eq_true, List.isEmpty_iff, List.filter_eq_nil_iff,
      Bool.not_eq_true'] at hbare
    split
    · exact .inl rfl
    · rename_i hnone
      split
      · rename_i hvalid
        exact .inr ⟨rfl, hbare.1, hbare.2, List.find?_eq_none.mp hnone, hvalid⟩
      · exact .inl rfl
  · exact .inl rfl

theorem spreadNames_filterMap_narrowItem :
    spreadNames (items.filterMap (r.narrowItem s)) = [] := by
  rw [spreadNames, List.filterMap_filterMap]
  apply List.filterMap_eq_nil_iff.mpr
  intro selection _
  cases hkept : r.narrowItem s selection with
  | none => rfl
  | some kept =>
    have hname := (leftOf_of_narrowItem hkept).spreadName?_eq
    cases selection with
    | field head children => exact hname
    | spread name directives => cases hkept
    | inline condition directives children => exact hname

theorem spreadNames_narrowItems_fst : spreadNames (r.narrowItems s defs items).1 = [] := by
  have hnone : spreadNames (items.filterMap (r.narrowItem s)) = [] :=
    spreadNames_filterMap_narrowItem
  rcases narrowItems_fst_cases s r defs items with h | ⟨h, _⟩
  · rw [h, hnone]
  · rw [h]
    exact hnone

theorem spreadNames_narrowedItems :
    spreadNames (r.narrowedItems s defs items) =
      spreadNames (firstSpreads (r.narrowItems s defs items).2 items) := by
  rw [narrowedItems, spreadNames, List.filterMap_append, ← spreadNames, ← spreadNames,
    spreadNames_narrowItems_fst, List.nil_append]

theorem mem_spreadNames_narrowedItems_iff {name : Name} :
    name ∈ spreadNames (r.narrowedItems s defs items) ↔
      name ∈ (r.narrowItems s defs items).2 ∧ name ∈ spreadNames items := by
  rw [spreadNames_narrowedItems, mem_spreadNames_firstSpreads_iff]

theorem filter_narrowedItems {x : Name} (hne : x ≠ typenameField)
    (hself : ∀ selection : Selection, selection.fieldName? = some x →
      r.narrowItem s selection = some selection)
    (hdirect : hasField x items = true) :
    (r.narrowedItems s defs items).filter (Selection.isFieldNamed x) =
      items.filter (Selection.isFieldNamed x) := by
  have hleft : selectsContent (items.filterMap (r.narrowItem s)) = true := by
    obtain ⟨selection, hmem, hname⟩ := List.mem_filterMap.mp (hasField_iff.mp hdirect)
    have hkept := List.mem_filterMap.mpr ⟨selection, hmem, hself selection hname⟩
    exact selectsContent_iff.mpr ⟨selection, hkept, by simpa [hname] using hne⟩
  have hspreads : ∀ needed, (firstSpreads needed items).filter (Selection.isFieldNamed x) = [] := by
    intro needed
    apply List.filter_eq_nil_iff.mpr
    intro selection hmem
    simp [Selection.isFieldNamed, fieldName?_of_mem_firstSpreads hmem]
  rw [narrowedItems, narrowItems_of_left (.inl hleft), List.filter_append, hspreads,
    List.append_nil, filter_filterMap_narrowItem hself]

theorem mem_spreadNames_narrowedItems_of_missing {name x : Name} (hmem : name ∈ spreadNames items)
    (hx : x ∈ r.missing s items) (h : Provides defs name x) :
    name ∈ spreadNames (r.narrowedItems s defs items) := by
  have hneeds : r.needs s defs items name = true := needs_iff.mpr ⟨x, hx, h⟩
  rw [mem_spreadNames_narrowedItems_iff, narrowItems_of_left (.inr ⟨name, hmem, hneeds⟩)]
  exact ⟨List.mem_filter.mpr ⟨hmem, hneeds⟩, hmem⟩

theorem operations_narrowed {d : Document} {q : ListQuery} (h : ListQuery.of? s d = some q) :
    (r.narrowed s d q).operations =
      (q.definitions.focus.withItems (r.narrowedItems s d.fragments q.items)).operation ::
        d.operations.tail := by
  rw [narrowed_eq, Document.operations_mapFragment, ListQuery.operations_withItems h]

theorem fragments_narrowed {d : Document} {q : ListQuery} (h : ListQuery.of? s d = some q) :
    (r.narrowed s d q).fragments = d.fragments.map (r.trimmed s d.fragments q.items) := by
  rw [narrowed_eq, Document.fragments_mapFragment, ListQuery.fragments_withItems h]

theorem reachable_of_narrowedItems {d : Document} {q : ListQuery} {name : Name}
    (h : ListQuery.of? s d = some q)
    (hname : name ∈ spreadNames (r.narrowedItems s d.fragments q.items)) :
    (r.narrowed s d q).Reachable name := by
  refine .start ⟨(q.definitions.focus.withItems _).operation, ?_,
    ListOperation.leadsTo_withItems hname⟩
  rw [operations_narrowed h]
  exact List.mem_cons_self

theorem of?_sweep_narrowed {d : Document} {q : ListQuery} (h : ListQuery.of? s d = some q) :
    ∃ q', ListQuery.of? s (r.narrowed s d q).sweep = some q' ∧ q.SamePlace q' ∧
      q'.items = r.narrowedItems s d.fragments q.items := by
  obtain ⟨_, _, hop⟩ := ListQuery.eq_fill_of_of?_eq_some h
  have hitems := ListOperation.of?_withItems hop (r.narrowedItems s d.fragments q.items)
  let narrowed := q.definitions.focus.withItems (r.narrowedItems s d.fragments q.items)
  have hfirst : ∃ live, (r.narrowed s d q).sweep.operations.head? =
      some (narrowed.operation.keepVariables live) := by
    rw [Document.sweep, Document.operations_dropUnusedVariables,
      Document.operations_dropUnusedFragments, operations_narrowed h]
    exact ⟨_, rfl⟩
  obtain ⟨live, hfirst⟩ := hfirst
  obtain ⟨q', hq', hfocus⟩ :=
    ListQuery.exists_of?_eq_some hfirst (ListOperation.of?_keepVariables hitems live)
  have hsame : q'.items = r.narrowedItems s d.fragments q.items := by
    rw [ListQuery.items, hfocus]
    rfl
  refine ⟨q', hq', ?_, hsame⟩
  rw [ListQuery.SamePlace, hsame, hfocus]

theorem provides_sweep_narrowed_iff {d : Document} {q : ListQuery} {name x : Name}
    (h : ListQuery.of? s d = some q)
    (hname : name ∈ spreadNames (r.narrowedItems s d.fragments q.items)) :
    Provides (r.narrowed s d q).sweep.fragments name x ↔
      Provides (d.fragments.map (r.trimmed s d.fragments q.items)) name x := by
  rw [Document.sweep, Document.fragments_dropUnusedVariables,
    provides_dropUnusedFragments_iff (reachable_of_narrowedItems h hname), fragments_narrowed h]

end Request

theorem Document.narrow_eq {s : ListSettings} {columns : List Column} {d : Document} {q : ListQuery}
    (hcolumns : columns ≠ []) (h : ListQuery.of? s d = some q) :
    d.narrow s columns = ((Request.ofColumns s.customField columns).narrowed s d q).sweep := by
  simp [Document.narrow, hcolumns, h]

end QueryShaping
