import Mathlib
import QueryShaping.Proofs.Paths

namespace QueryShaping

/-- What the first operation selects beside the items: the other selections at its root, and the
other selections of the list field. -/
def ListQuery.beside (q : ListQuery) : List Selection :=
  let roots := q.definitions.focus.roots
  roots.before ++ roots.after ++ (roots.focus.children.before ++ roots.focus.children.after)

namespace ListQuery

theorem SamePlace.beside_eq {q q' : ListQuery} (h : q.SamePlace q') : q'.beside = q.beside := by
  rw [beside, h]
  rfl

theorem leadsTo_of_mem_beside {s : ListSettings} {d : Document} {q : ListQuery} {t : Selection}
    {name : Name} (h : of? s d = some q) (member : t ∈ q.beside) (spread : Spreads [t] name) :
    q.definitions.focus.operation.LeadsTo name := by
  obtain ⟨_, _, hop⟩ := eq_fill_of_of?_eq_some h
  obtain ⟨_, hselections, _⟩ := ListOperation.of?_eq_some hop
  rcases List.mem_append.mp member with hroot | hchild
  · have hmem : t ∈ q.definitions.focus.operation.selections := by
      rw [hselections, Around.mem_fill_iff]
      exact .inr hroot
    exact spread.of_subset (by simpa using hmem)
  · have hfield : q.definitions.focus.roots.focus.selection ∈
        q.definitions.focus.operation.selections := by
      rw [hselections, Around.mem_fill_iff]
      exact .inl rfl
    have hmem : t ∈ q.definitions.focus.roots.focus.selection.children := by
      rw [ListField.selection, Selection.children, Around.mem_fill_iff]
      exact .inr hchild
    exact (spread.of_subset (by simpa using hmem)).of_member hfield

end ListQuery

namespace Document

/-- The selection sets outside the items, in order: what stands beside the items, one by one, or all
that the first operation selects if there is no list query; then those of the other operations. -/
def outside (s : ListSettings) (d : Document) : List (List Selection) :=
  let first := match ListQuery.of? s d with
    | none => (d.operations.take 1).flatMap Operation.selections
    | some q => q.beside
  first.map ([·]) ++ (d.operations.drop 1).map (·.selections)

/-- What narrowing makes of a fragment definition: it is trimmed if the narrowed items spread it. -/
def cut (s : ListSettings) (columns : List Column) (d : Document) (f : Fragment) : Fragment :=
  if columns.isEmpty then f
  else
    match ListQuery.of? s d with
    | none => f
    | some q => (Request.ofColumns s.customField columns).trimmed s d.fragments q.items f

variable {s : ListSettings} {columns : List Column} {d : Document}

theorem narrow_cases (s : ListSettings) (columns : List Column) (d : Document) :
    (d.narrow s columns = d ∧ d.cut s columns = id) ∨
      ∃ q, ListQuery.of? s d = some q ∧ columns ≠ [] ∧
        d.cut s columns =
          (Request.ofColumns s.customField columns).trimmed s d.fragments q.items := by
  by_cases hcolumns : columns = []
  · left
    constructor
    · simp [narrow, hcolumns]
    · funext f
      simp [cut, hcolumns]
  · cases hq : ListQuery.of? s d with
    | none =>
      left
      constructor
      · simp [narrow, hq]
      · funext f
        simp [cut, hq]
    | some q =>
      refine .inr ⟨q, rfl, hcolumns, ?_⟩
      funext f
      simp [cut, hcolumns, hq]

theorem exists_leadsTo_of_mem_outside {set : List Selection} {name : Name}
    (member : set ∈ d.outside s) (spread : Spreads set name) :
    ∃ op ∈ d.operations, op.LeadsTo name := by
  rcases List.mem_append.mp member with hfirst | hother
  · obtain ⟨t, ht, rfl⟩ := List.mem_map.mp hfirst
    cases hq : ListQuery.of? s d with
    | none =>
      simp only [hq, List.mem_flatMap] at ht
      obtain ⟨op, hop, hmem⟩ := ht
      exact ⟨op, List.mem_of_mem_take hop, spread.of_subset (by simpa using hmem)⟩
    | some q =>
      simp only [hq] at ht
      exact ⟨_, ListQuery.operation_mem hq, ListQuery.leadsTo_of_mem_beside hq ht spread⟩
  · obtain ⟨op, hop, rfl⟩ := List.mem_map.mp hother
    exact ⟨op, List.mem_of_mem_drop hop, spread⟩

theorem map_selections_dropUnusedVariables (d : Document) :
    d.dropUnusedVariables.operations.map (·.selections) = d.operations.map (·.selections) := by
  rw [operations_dropUnusedVariables, List.map_map]
  rfl

theorem map_selections_sweep (d : Document) :
    d.sweep.operations.map (·.selections) = d.operations.map (·.selections) := by
  rw [sweep, map_selections_dropUnusedVariables, operations_dropUnusedFragments]

theorem outside_narrow : (d.narrow s columns).outside s = d.outside s := by
  rcases narrow_cases s columns d with ⟨hsame, _⟩ | ⟨q, hq, hcolumns, _⟩
  · rw [hsame]
  · rw [narrow_eq hcolumns hq]
    obtain ⟨q', hq', hplace, _⟩ := Request.of?_sweep_narrowed
      (r := Request.ofColumns s.customField columns) hq
    rw [outside, outside, hq', hq, List.map_drop, List.map_drop, map_selections_sweep,
      Request.operations_narrowed hq]
    simp [hplace.beside_eq]

theorem selects_narrow_iff {set : List Selection} {path : List FieldHead}
    (member : set ∈ d.outside s) :
    Selects (d.narrow s columns).fragments set path ↔
      Selects (d.fragments.map (d.cut s columns)) set path := by
  have hmember : set ∈ (d.narrow s columns).outside s := by
    rw [outside_narrow]
    exact member
  rcases narrow_cases s columns d with ⟨hsame, hcut⟩ | ⟨q, hq, hcolumns, hcut⟩
  · rw [hsame, hcut, List.map_id]
  · rw [narrow_eq hcolumns hq] at hmember ⊢
    rw [sweep, fragments_dropUnusedVariables, selects_dropUnusedFragments_iff,
      Request.fragments_narrowed hq, hcut]
    intro name hspread
    obtain ⟨op, hop, hleads⟩ := exists_leadsTo_of_mem_outside hmember hspread
    have hselections := List.mem_map_of_mem (f := Operation.selections) hop
    rw [map_selections_sweep] at hselections
    obtain ⟨op', hop', heq⟩ := List.mem_map.mp hselections
    exact .start ⟨op', hop', by simpa only [Operation.LeadsTo, heq] using hleads⟩

theorem name_cut (f : Fragment) : (d.cut s columns f).name = f.name := by
  rcases narrow_cases s columns d with ⟨_, hcut⟩ | ⟨q, _, _, hcut⟩
  · rw [hcut]
    rfl
  · rw [hcut]
    exact Request.name_trimmed f

theorem leftOf_cut (f : Fragment) (kept : Selection) (h : kept ∈ (d.cut s columns f).selections) :
    ∃ t ∈ f.selections, kept.LeftOf t := by
  rcases narrow_cases s columns d with ⟨_, hcut⟩ | ⟨q, _, _, hcut⟩
  · rw [hcut] at h
    exact ⟨kept, h, .whole⟩
  · rw [hcut] at h
    exact Request.leftOf_trimmed f h

theorem selects_of_cut {set : List Selection} {path : List FieldHead}
    (h : Selects (d.fragments.map (d.cut s columns)) set path) : Selects d.fragments set path :=
  h.of_map name_cut leftOf_cut

theorem selects_cut {set : List Selection} {path : List FieldHead}
    (h : Selects d.fragments set path)
    (uncut : ∀ f ∈ d.fragments, Reached Fragment.LeadsTo d.fragments (Spreads set) f.name →
      d.cut s columns f = f) : Selects (d.fragments.map (d.cut s columns)) set path := by
  apply h.of_reached
  intro f hf hr
  exact List.mem_map.mpr ⟨f, hf, uncut f hf hr⟩

/-- Outside the items narrowing leaves all selections as they are, and the paths of field names they
select are those that the cut definitions give. None is added. All are kept where no definition that
is reached is cut; a path is lost if it was selected only through what a cut definition drops. -/
theorem selectsNames_narrow_outside (s : ListSettings) (columns : List Column) (d : Document) :
    (d.narrow s columns).outside s = d.outside s ∧
      ∀ set ∈ d.outside s,
        (∀ names, SelectsNames (d.narrow s columns).fragments set names ↔
          SelectsNames (d.fragments.map (d.cut s columns)) set names) ∧
        (∀ names, SelectsNames (d.narrow s columns).fragments set names →
          SelectsNames d.fragments set names) ∧
        ((∀ f ∈ d.fragments, Reached Fragment.LeadsTo d.fragments (Spreads set) f.name →
            d.cut s columns f = f) →
          ∀ names, SelectsNames (d.narrow s columns).fragments set names ↔
            SelectsNames d.fragments set names) := by
  refine ⟨outside_narrow, ?_⟩
  intro set member
  have hexact : ∀ path, Selects (d.narrow s columns).fragments set path ↔
      Selects (d.fragments.map (d.cut s columns)) set path := fun _ => selects_narrow_iff member
  refine ⟨?_, ?_, ?_⟩
  · intro names
    simp only [SelectsNames, hexact]
  · intro names h
    obtain ⟨path, hpath, hnames⟩ := h
    exact ⟨path, selects_of_cut ((hexact path).mp hpath), hnames⟩
  · intro uncut names
    have hsame : ∀ path, Selects (d.narrow s columns).fragments set path ↔
        Selects d.fragments set path := by
      intro path
      rw [hexact]
      exact ⟨selects_of_cut, fun h => selects_cut h uncut⟩
    simp only [SelectsNames, hsame]

end Document

/-- A list of cards with one card featured beside the items. -/
def featuredList (items featured : List Selection) (fragments : List Fragment) : Document :=
  let list := [.field ⟨none, "items", [], []⟩ items, .field ⟨none, "featured", [], []⟩ featured]
  ⟨.operation ⟨.query, none, [], [], [.field ⟨none, "products", [], []⟩ list]⟩ ::
    fragments.map .fragment⟩

/-- A fragment that the items no longer spread stays whole for what else spreads it. -/
theorem selectsNames_narrow_outside_price :
    let card : Fragment := ⟨"Card", "Product", [], [.leaf "name"]⟩
    let price : Fragment := ⟨"Price", "Product", [], [.leaf "price", .leaf "currencyCode"]⟩
    let d := featuredList [.spread "Card" [], .spread "Price" []] [.spread "Price" []] [card, price]
    let featured := [.field ⟨none, "featured", [], []⟩ [.spread "Price" []]]
    let columns := [Column.field "name"]
    featured ∈ d.outside {} ∧
      (∀ f ∈ d.fragments, Reached Fragment.LeadsTo d.fragments (Spreads featured) f.name →
        d.cut {} columns f = f) ∧
      SelectsNames (d.narrow {} columns).fragments featured ["featured", "price"] := by
  intro card price d featured columns
  have hmember : featured ∈ d.outside {} := List.mem_singleton_self _
  have hfragments : d.fragments = [card, price] := rfl
  have huncut : ∀ f ∈ d.fragments,
      Reached Fragment.LeadsTo d.fragments (Spreads featured) f.name → d.cut {} columns f = f := by
    intro f hf _
    have hcases : f = card ∨ f = price := by simpa [hfragments] using hf
    rcases hcases with rfl | rfl
    · cbv
    · cbv
  refine ⟨hmember, huncut, ?_⟩
  rw [((Document.selectsNames_narrow_outside {} columns d).2 featured hmember).2.2 huncut]
  have hprice : Selects d.fragments [.spread "Price" []] [⟨none, "price", [], []⟩] :=
    .spread (f := price) (List.mem_singleton_self _) (by simp [hfragments])
      (.last List.mem_cons_self)
  exact ⟨_, .field (List.mem_singleton_self _) hprice, rfl⟩

/-- A fragment that the items still spread is trimmed for all: the featured card loses its price. -/
theorem narrow_loses_paths_outside :
    let card : Fragment := ⟨"Card", "Product", [], [.leaf "name", .leaf "price"]⟩
    let d := featuredList [.spread "Card" []] [.spread "Card" []] [card]
    let featured := [.field ⟨none, "featured", [], []⟩ [.spread "Card" []]]
    featured ∈ d.outside {} ∧ SelectsNames d.fragments featured ["featured", "price"] ∧
      ¬ SelectsNames (d.narrow {} [Column.field "name"]).fragments featured
        ["featured", "price"] := by
  intro card d featured
  refine ⟨List.mem_singleton_self _, ?_, ?_⟩
  · have hprice : Selects d.fragments [.spread "Card" []] [⟨none, "price", [], []⟩] :=
      .spread (f := card) (List.mem_singleton_self _) (List.mem_singleton_self _)
        (.last (List.mem_cons_of_mem _ (List.mem_singleton_self _)))
    exact ⟨_, .field (List.mem_singleton_self _) hprice, rfl⟩
  · have hcard : (d.narrow {} [Column.field "name"]).fragments =
        [⟨"Card", "Product", [], [.leaf "name"]⟩] := by
      cbv
    rw [hcard]
    simp [SelectsNames, featured, selects_field_iff, selects_spread_iff, Selection.leaf]

end QueryShaping
