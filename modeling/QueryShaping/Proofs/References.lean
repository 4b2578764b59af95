import QueryShaping.Proofs.NothingAdded
import QueryShaping.Proofs.SweepStable

namespace QueryShaping

namespace Document

def Defines (d : Document) (name : Name) : Prop :=
  ∃ f ∈ d.fragments, f.name = name

def LeadsTo (d : Document) (name : Name) : Prop :=
  (∃ op ∈ d.operations, op.LeadsTo name) ∨ ∃ f ∈ d.fragments, f.LeadsTo name

/-- Every fragment that is spread is defined, and every operation defines the variables that it
uses, itself or in the fragments it reaches. -/
structure Consistent (d : Document) : Prop where
  defined : ∀ name, d.LeadsTo name → d.Defines name
  declared : ∀ op ∈ d.operations, ∀ x, d.UsedFrom op x → ∃ v ∈ op.variableDefs, v.name = x

variable {d d' : Document}

def spreads (d : Document) : List Name :=
  d.operations.foldl Walker.spreadRecorder.walkOperation
    (d.fragments.foldl Walker.spreadRecorder.walkFragment [])

theorem mem_spreads_iff {name : Name} : name ∈ d.spreads ↔ d.LeadsTo name := by
  have hoperation : ∀ names op,
      name ∈ Walker.spreadRecorder.walkOperation names op ↔ op.LeadsTo name ∨ name ∈ names :=
    fun _ _ => Walker.mem_spreadRecorder_walkOperation_iff
  have hfragment : ∀ names f,
      name ∈ Walker.spreadRecorder.walkFragment names f ↔ f.LeadsTo name ∨ name ∈ names :=
    fun _ _ => Walker.mem_spreadRecorder_walkFragment_iff
  rw [spreads, mem_foldl_iff hoperation, mem_foldl_iff hfragment, or_iff_left List.not_mem_nil]
  rfl

def isConsistent (d : Document) : Bool :=
  d.spreads.all (d.fragments.map (·.name)).contains &&
    d.operations.all fun op => (d.liveVariables op).all (op.variableDefs.map (·.name)).contains

theorem isConsistent_iff : d.isConsistent = true ↔ d.Consistent := by
  simp only [isConsistent, Bool.and_eq_true, List.all_eq_true, List.contains_iff_mem,
    List.mem_map, mem_spreads_iff, mem_liveVariables_iff]
  exact ⟨fun h => ⟨h.1, h.2⟩, fun h => ⟨h.defined, h.declared⟩⟩

theorem Consistent.sweep (h : d.Consistent) : d.sweep.Consistent := by
  have hfragments : d.sweep.fragments = d.dropUnusedFragments.fragments :=
    fragments_dropUnusedVariables _
  have hreached {name : Name} (hleads : d.sweep.LeadsTo name) : d.sweep.Reachable name := by
    rcases hleads with hop | ⟨f, hf, hleads⟩
    · exact .start hop
    · exact .step hf ((nothingUnused_sweep d).reached f hf) hleads
  refine ⟨?_, ?_⟩
  · intro name hleads
    have hreach := hreached hleads
    rw [Document.sweep, reachable_dropUnusedVariables_iff, reachable_dropUnusedFragments_iff]
      at hreach
    have hgiven : d.LeadsTo name := by
      cases hreach with
      | start begun => exact .inl begun
      | step member _ next => exact .inr ⟨_, member, next⟩
    obtain ⟨f, hf, rfl⟩ := h.defined name hgiven
    exact ⟨f, hfragments ▸ mem_dropUnusedFragments hf hreach, rfl⟩
  · intro op' hop' x hused
    rw [Document.sweep, operations_dropUnusedVariables, operations_dropUnusedFragments] at hop'
    obtain ⟨op, hop, rfl⟩ := List.mem_map.mp hop'
    rw [Document.sweep, usedFrom_dropUnusedVariables_iff] at hused
    have hlive := List.contains_iff_mem.mpr (mem_liveVariables_iff.mpr hused)
    rw [usedFrom_dropUnusedFragments_iff hop] at hused
    obtain ⟨v, hv, rfl⟩ := h.declared op hop x hused
    exact ⟨v, List.mem_filter.mpr ⟨hv, hlive⟩, rfl⟩

/-- A document that has the definitions of another, with no new references in them, is consistent if
the other is. -/
theorem Consistent.of_references (h : d.Consistent)
    (operations : ∀ op' ∈ d'.operations, ∃ op ∈ d.operations, op'.variableDefs = op.variableDefs ∧
      (∀ name, op'.LeadsTo name → op.LeadsTo name) ∧ ∀ x, op'.Uses x → op.Uses x)
    (fragments : ∀ f' ∈ d'.fragments, ∃ f ∈ d.fragments, f'.name = f.name ∧
      (∀ name, f'.LeadsTo name → f.LeadsTo name) ∧ ∀ x, f'.Uses x → f.Uses x)
    (defined : ∀ name, d.Defines name → d'.Defines name) : d'.Consistent := by
  refine ⟨?_, ?_⟩
  · intro name hleads
    apply defined
    apply h.defined
    rcases hleads with ⟨op', hop', hleads⟩ | ⟨f', hf', hleads⟩
    · obtain ⟨op, hop, _, hspreads, _⟩ := operations op' hop'
      exact .inl ⟨op, hop, hspreads name hleads⟩
    · obtain ⟨f, hf, _, hspreads, _⟩ := fragments f' hf'
      exact .inr ⟨f, hf, hspreads name hleads⟩
  · intro op' hop' x hused
    obtain ⟨op, hop, hvariables, hspreads, huses⟩ := operations op' hop'
    have hreach : ∀ name, d'.ReachableFrom op' name → d.ReachableFrom op name := by
      intro name hr
      induction hr with
      | start begun => exact .start (hspreads _ begun)
      | step member _ next ih =>
        obtain ⟨f, hf, hname, hleads, _⟩ := fragments _ member
        exact .step hf (hname ▸ ih) (hleads _ next)
    rw [hvariables]
    apply h.declared op hop x
    rcases hused with hown | ⟨f', hf', hr, hin⟩
    · exact .inl (huses x hown)
    · obtain ⟨f, hf, hname, _, hfragment⟩ := fragments f' hf'
      exact .inr ⟨f, hf, hname ▸ hreach _ hr, hfragment x hin⟩

end Document

theorem Request.consistent_narrowed {s : ListSettings} {r : Request} {d : Document} {q : ListQuery}
    (located : ListQuery.of? s d = some q) (h : d.Consistent) : (r.narrowed s d q).Consistent := by
  apply h.of_references
  · intro op' hop'
    rw [operations_narrowed located] at hop'
    rcases List.mem_cons.mp hop' with rfl | hother
    · obtain ⟨_, _, hop⟩ := ListQuery.eq_fill_of_of?_eq_some located
      have hself := ListOperation.withItems_items hop
      refine ⟨_, ListQuery.operation_mem located, rfl, ?_, ?_⟩
      · intro name hleads
        rw [← hself]
        exact (ownMark_spread name).withItems
          (references_narrowedItems (ownMark_spread name)) hleads
      · intro x huses
        rw [← hself]
        exact huses.imp_right ((ownMark_carries x).withItems
          (references_narrowedItems (ownMark_carries x)))
    · exact ⟨op', List.mem_of_mem_tail hother, rfl, fun _ h => h, fun _ h => h⟩
  · intro f' hf'
    rw [fragments_narrowed located] at hf'
    obtain ⟨f, hf, rfl⟩ := List.mem_map.mp hf'
    exact ⟨f, hf, name_trimmed f, references_trimmed f⟩
  · intro name hdefined
    obtain ⟨f, hf, rfl⟩ := hdefined
    rw [Document.Defines, fragments_narrowed located]
    exact ⟨_, List.mem_map_of_mem hf, name_trimmed f⟩

/-- A consistent document stays consistent. Where it is narrowed, nothing unused is left: operations
reach all its fragments, and use all the variables that they define. -/
theorem narrow_keeps_consistent (s : ListSettings) (columns : List Column) {d : Document}
    (consistent : d.Consistent) :
    (d.narrow s columns).Consistent ∧
      ∀ q, columns ≠ [] → ListQuery.of? s d = some q → (d.narrow s columns).NothingUnused := by
  constructor
  · rcases Document.narrow_cases s columns d with ⟨hsame, _⟩ | ⟨q, located, hcolumns, _⟩
    · rw [hsame]
      exact consistent
    · rw [Document.narrow_eq hcolumns located]
      exact (Request.consistent_narrowed located consistent).sweep
  · intro q hcolumns located
    rw [Document.narrow_eq hcolumns located]
    exact Document.nothingUnused_sweep _

def Selection.taking (name x : Name) : Selection :=
  .field ⟨none, name, [⟨x, .var x⟩], []⟩ []

/-- A list of products that defines some variables, and a cart that shares the prices with it. -/
def pricedProducts (names : List Name) (items card : List Selection) : Document :=
  let int (x : Name) : VariableDefinition := ⟨x, .named "Int", none, []⟩
  let list := [.field ⟨none, "products", [], []⟩ [.field ⟨none, "items", [], []⟩ items]]
  ⟨[.operation ⟨.query, some "List", names.map int, [], list⟩,
    .fragment ⟨"Card", "Product", [], card⟩,
    .operation ⟨.query, some "Cart", [int "currency"], [], [.spread "Price" []]⟩,
    .fragment ⟨"Price", "Product", [], [.taking "price" "currency"]⟩]⟩

/-- The list asks for names only. It loses the variables of images and prices, and the fragment with
the prices stays with its variable for the cart. -/
theorem narrow_keeps_consistent_prices :
    let d := pricedProducts ["size", "currency", "language"] [.spread "Card" [], .spread "Price" []]
      [.taking "name" "language", .taking "image" "size"]
    let narrowed := pricedProducts ["language"] [.spread "Card" []] [.taking "name" "language"]
    d.Consistent ∧ [Column.field "name"] ≠ [] ∧ d.narrow {} [Column.field "name"] = narrowed ∧
      narrowed.Consistent ∧ narrowed.NothingUnused := by
  intro d narrowed
  have hcheck : d.isConsistent = true := by
    cbv
  have hconsistent : d.Consistent := Document.isConsistent_iff.mp hcheck
  have hasked : [Column.field "name"] ≠ [] := List.cons_ne_nil _ _
  have hnarrow : d.narrow {} [Column.field "name"] = narrowed := by
    cbv
  obtain ⟨hkept, hunused⟩ := narrow_keeps_consistent {} [Column.field "name"] hconsistent
  have hlive := hunused _ hasked rfl
  rw [hnarrow] at hkept hlive
  exact ⟨hconsistent, hasked, hnarrow, hkept, hlive⟩

end QueryShaping
