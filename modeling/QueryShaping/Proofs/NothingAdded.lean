import QueryShaping.Proofs.IdentityKept
import QueryShaping.Proofs.PathsKept

namespace QueryShaping

section

variable {defs : List Fragment} {path : List FieldHead}

theorem selects_fill {β : Type} {a : Around Selection β} {x y : Selection} {p : Prop}
    (h : Selects defs (a.fill x) path)
    (hfocus : Selects defs [x] path → Selects defs [y] path ∨ p) :
    Selects defs (a.fill y) path ∨ p := by
  obtain ⟨t, ht, hselects⟩ := selects_iff_exists_mem.mp h
  rcases Around.mem_fill_iff.mp ht with rfl | hother
  · rcases hfocus hselects with hy | hp
    · exact .inl (selects_iff_exists_mem.mpr ⟨y, Around.mem_fill_iff.mpr (.inl rfl), hy⟩)
    · exact .inr hp
  · exact .inl (selects_iff_exists_mem.mpr ⟨t, Around.mem_fill_iff.mpr (.inr hother), hselects⟩)

theorem selects_field_or {head : FieldHead} {below below' : List Selection}
    {new : List FieldHead → Prop} (h : Selects defs [.field head below] path)
    (hbelow : ∀ rest, Selects defs below rest → Selects defs below' rest ∨ new rest) :
    Selects defs [.field head below'] path ∨ ∃ rest, path = head :: rest ∧ new rest := by
  rcases selects_field_iff.mp h with rfl | ⟨rest, rfl, inner⟩
  · exact .inl (selects_field_iff.mpr (.inl rfl))
  · rcases hbelow rest inner with hrest | hnew
    · exact .inl (selects_field_iff.mpr (.inr ⟨rest, rfl, hrest⟩))
    · exact .inr ⟨rest, rfl, hnew⟩

theorem ListOperation.selects_withItems {op : ListOperation} {items items' : List Selection}
    {new : List FieldHead → Prop} (h : Selects defs (op.withItems items).operation.selections path)
    (hitems : ∀ rest, Selects defs items rest → Selects defs items' rest ∨ new rest) :
    Selects defs (op.withItems items').operation.selections path ∨
      ∃ rest, path = op.roots.focus.head :: op.roots.focus.children.focus.1 :: rest ∧ new rest := by
  have hfield {rest} (h : Selects defs [.field op.roots.focus.children.focus.1 items] rest) :=
    selects_field_or h hitems
  have hroot (h : Selects defs [(op.roots.focus.withItems items).selection] path) :=
    selects_field_or h fun rest hrest => selects_fill hrest hfield
  have hfill := selects_fill h hroot
  rcases hfill with hsame | ⟨_, rfl, rest, rfl, hnew⟩
  · exact .inl hsame
  · exact .inr ⟨rest, rfl, hnew⟩

end

/-- A mark that a selection bears itself, whatever stands below it, and that no bare field bears. -/
structure OwnMark (p : Selection → Prop) : Prop where
  own : ∀ {head below} below', p (.field head below) → p (.field head below')
  bare : ∀ name, ¬ p (.leaf name)

theorem ownMark_spread (name : Name) : OwnMark (·.spreadName? = some name) where
  own _ h := h
  bare _ h := by cases h

theorem ownMark_carries (x : Name) : OwnMark (Selection.Carries x) where
  own _ h := h
  bare _ h := by simp [Selection.leaf, Selection.Carries, HeldByArguments, HeldByDirectives] at h

namespace OwnMark

variable {p : Selection → Prop}

theorem of_leftOf {set whole : List Selection} (hp : OwnMark p)
    (left : ∀ s ∈ set, ∃ t ∈ whole, s.LeftOf t) (h : ∃ s, Within s set ∧ p s) :
    ∃ s, Within s whole ∧ p s := by
  obtain ⟨s, hs, hmark⟩ := h
  cases hs with
  | here member =>
    obtain ⟨t, ht, hleft⟩ := left _ member
    cases hleft with
    | whole => exact ⟨s, .here ht, hmark⟩
    | fewer _ => exact ⟨_, .here ht, hp.own _ hmark⟩
  | deeper member inner =>
    obtain ⟨t, ht, hleft⟩ := left _ member
    cases hleft with
    | whole => exact ⟨s, .deeper ht inner, hmark⟩
    | fewer kept => exact ⟨s, .deeper ht (inner.of_subset kept), hmark⟩

theorem of_leaf_cons {name : Name} {set : List Selection} (hp : OwnMark p)
    (h : ∃ s, Within s (.leaf name :: set) ∧ p s) : ∃ s, Within s set ∧ p s := by
  rcases exists_found_cons_iff.mp h with (hleaf | hbelow) | hrest
  · exact absurd hleaf (hp.bare name)
  · obtain ⟨_, hnone, _⟩ := hbelow
    exact absurd hnone not_found_nil
  · exact hrest

theorem withItems {op : ListOperation} {items items' : List Selection} (hp : OwnMark p)
    (hitems : (∃ s, Within s items ∧ p s) → ∃ s, Within s items' ∧ p s) :
    (∃ s, Within s (op.withItems items).operation.selections ∧ p s) →
      ∃ s, Within s (op.withItems items').operation.selections ∧ p s := by
  apply ListOperation.withItems_rel (R := fun set set' =>
    (∃ s, Within s set ∧ p s) → ∃ s, Within s set' ∧ p s) _ hitems
  intro β a head below below' hbelow h
  obtain ⟨t, ht, hmark⟩ := exists_found_iff.mp h
  refine exists_found_iff.mpr ?_
  rcases Around.mem_fill_iff.mp ht with rfl | hother
  · refine ⟨.field head below', Around.mem_fill_iff.mpr (.inl rfl), ?_⟩
    simp only [exists_found_cons_iff, exists_found_nil_iff, or_false, Selection.children]
      at hmark ⊢
    exact hmark.imp (hp.own _) hbelow
  · exact ⟨t, Around.mem_fill_iff.mpr (.inr hother), hmark⟩

end OwnMark

namespace Request

/-- Items that would be left bare, without a fragment that provides the identity: they get the
identity field, if its name can stand in a document. -/
structure AddsIdentity (s : ListSettings) (r : Request) (defs : List Fragment)
    (items : List Selection) : Prop where
  bare : r.LeavesBare s defs items
  absent : ∀ name ∈ spreadNames items, ¬ Provides defs name s.identityField
  valid : Name.isValid s.identityField = true

variable {s : ListSettings} {r : Request} {defs : List Fragment} {items : List Selection}

theorem narrowItems_fst_or_adds (s : ListSettings) (r : Request) (defs : List Fragment)
    (items : List Selection) :
    (r.narrowItems s defs items).1 = items.filterMap (r.narrowItem s) ∨
      (r.narrowItems s defs items).1 =
        .leaf s.identityField :: items.filterMap (r.narrowItem s) ∧
          r.AddsIdentity s defs items := by
  rcases narrowItems_fst_cases s r defs items with
    hplain | ⟨hadded, hneeds, hcontent, hnone, hvalid⟩
  · exact .inl hplain
  · refine .inr ⟨hadded, ⟨hcontent, ?_⟩, ?_, hvalid⟩
    · intro name hmem x hx hprovides
      exact hneeds name hmem (needs_iff.mpr ⟨x, hx, hprovides⟩)
    · intro name hmem hprovides
      exact hnone name hmem (provides_iff.mpr hprovides)

theorem leftOf_narrowedItems {kept : Selection} (h : kept ∈ r.narrowedItems s defs items) :
    (∃ t ∈ items, kept.LeftOf t) ∨ kept = .leaf s.identityField ∧ r.AddsIdentity s defs items := by
  have hparts (hpart : kept ∈ items.filterMap (r.narrowItem s)) : ∃ t ∈ items, kept.LeftOf t := by
    obtain ⟨t, ht, hkept⟩ := List.mem_filterMap.mp hpart
    exact ⟨t, ht, leftOf_of_narrowItem hkept⟩
  rcases List.mem_append.mp h with hfirst | hspread
  · rcases narrowItems_fst_or_adds s r defs items with heq | ⟨heq, hadds⟩
    · rw [heq] at hfirst
      exact .inl (hparts hfirst)
    · rw [heq] at hfirst
      rcases List.mem_cons.mp hfirst with rfl | hpart
      · exact .inr ⟨rfl, hadds⟩
      · exact .inl (hparts hpart)
  · have hmem := List.mem_filter.mp ((firstSpreads_sublist _ items).subset hspread)
    exact .inl ⟨kept, hmem.1, .whole⟩

/-- The narrowed items select no path that the items did not, unless the identity was added. -/
theorem selects_narrowedItems {live : List Fragment} {path : List FieldHead}
    (h : Selects live (r.narrowedItems s defs items) path) :
    Selects live items path ∨
      path = [⟨none, s.identityField, [], []⟩] ∧ r.AddsIdentity s defs items := by
  obtain ⟨kept, hkept, hselects⟩ := selects_iff_exists_mem.mp h
  rcases leftOf_narrowedItems hkept with ⟨t, ht, hleft⟩ | ⟨rfl, hadds⟩
  · refine .inl (hselects.of_leftOf ?_)
    intro kept' hmem
    cases List.mem_singleton.mp hmem
    exact ⟨t, ht, hleft⟩
  · rcases selects_field_iff.mp hselects with rfl | ⟨_, _, inner⟩
    · exact .inr ⟨rfl, hadds⟩
    · obtain ⟨_, hnone, _⟩ := selects_iff_exists_mem.mp inner
      exact absurd hnone List.not_mem_nil

theorem references_narrowedItems {p : Selection → Prop} (hp : OwnMark p)
    (h : ∃ t, Within t (r.narrowedItems s defs items) ∧ p t) : ∃ t, Within t items ∧ p t := by
  obtain ⟨kept, hkept, hmark⟩ := exists_found_iff.mp h
  rcases leftOf_narrowedItems hkept with ⟨t, ht, hleft⟩ | ⟨rfl, _⟩
  · apply hp.of_leftOf _ hmark
    intro kept' hmem
    cases List.mem_singleton.mp hmem
    exact ⟨t, ht, hleft⟩
  · obtain ⟨_, hnone, _⟩ := hp.of_leaf_cons hmark
    exact absurd hnone not_found_nil

theorem references_trimmed (f : Fragment) :
    (∀ name, (r.trimmed s defs items f).LeadsTo name → f.LeadsTo name) ∧
      ∀ x, (r.trimmed s defs items f).Uses x → f.Uses x := by
  constructor
  · intro name h
    exact (ownMark_spread name).of_leftOf (fun _ hs => leftOf_trimmed f hs) h
  · intro x h
    rcases h with hdirectives | hselections
    · rw [trimmed_eq] at hdirectives
      exact .inl hdirectives
    · exact .inr ((ownMark_carries x).of_leftOf (fun _ hs => leftOf_trimmed f hs) hselections)

theorem selections_sweep_narrowed {d : Document} {q : ListQuery} {k : Nat} {op' : Operation}
    (located : ListQuery.of? s d = some q)
    (h : (r.narrowed s d q).sweep.operations[k]? = some op') :
    let narrowed := q.definitions.focus.withItems (r.narrowedItems s d.fragments q.items)
    ∃ op, d.operations[k]? = some op ∧ (op'.selections = op.selections ∨
      k = 0 ∧ op = q.definitions.focus.operation ∧
        op'.selections = narrowed.operation.selections) := by
  intro narrowed
  rw [Document.sweep, Document.operations_dropUnusedVariables,
    Document.operations_dropUnusedFragments, operations_narrowed located, List.getElem?_map,
    Option.map_eq_some_iff] at h
  obtain ⟨op, hop, rfl⟩ := h
  rw [ListQuery.operations_eq_cons located]
  cases k with
  | zero =>
    cases hop
    exact ⟨_, rfl, .inr ⟨rfl, rfl, rfl⟩⟩
  | succ k => exact ⟨op, hop, .inl rfl⟩

theorem selects_of_sweep_narrowed {d : Document} {q : ListQuery} {set : List Selection}
    {path : List FieldHead} (located : ListQuery.of? s d = some q)
    (h : Selects (r.narrowed s d q).sweep.fragments set path) : Selects d.fragments set path := by
  rw [Document.sweep, Document.fragments_dropUnusedVariables] at h
  have hnarrowed := h.of_reached fun f hf _ => Document.mem_of_mem_dropUnusedFragments hf
  rw [fragments_narrowed located] at hnarrowed
  exact hnarrowed.of_map name_trimmed fun f _ hkept => leftOf_trimmed f hkept

end Request

/-- The path to the identity field that is added to items left bare. -/
def ListQuery.identityPath (s : ListSettings) (q : ListQuery) : List FieldHead :=
  let field := q.definitions.focus.roots.focus
  [field.head, field.children.focus.1, ⟨none, s.identityField, [], []⟩]

/-- Every path of fields, with their aliases, arguments and directives, that an operation of the
narrowed document selects is selected by the operation in its place in the given document. The one
exception is the bare identity field in the items of the first operation, where it is added. -/
theorem narrow_selects_nothing_new {s : ListSettings} {columns : List Column} {d : Document}
    {k : Nat} {op' : Operation} (h : (d.narrow s columns).operations[k]? = some op') :
    ∃ op, d.operations[k]? = some op ∧
      ∀ path, Selects (d.narrow s columns).fragments op'.selections path →
        Selects d.fragments op.selections path ∨
          k = 0 ∧ ∃ q, ListQuery.of? s d = some q ∧ path = q.identityPath s ∧
            (Request.ofColumns s.customField columns).AddsIdentity s d.fragments q.items := by
  rcases Document.narrow_cases s columns d with ⟨hsame, _⟩ | ⟨q, located, hcolumns, _⟩
  · rw [hsame] at h ⊢
    exact ⟨op', h, fun path hpath => .inl hpath⟩
  · rw [Document.narrow_eq hcolumns located] at h ⊢
    obtain ⟨op, hop, hselections⟩ := Request.selections_sweep_narrowed located h
    refine ⟨op, hop, ?_⟩
    intro path hpath
    have hgiven := Request.selects_of_sweep_narrowed located hpath
    rcases hselections with hsame | ⟨rfl, rfl, hitems⟩
    · rw [hsame] at hgiven
      exact .inl hgiven
    · rw [hitems] at hgiven
      rcases ListOperation.selects_withItems hgiven fun _ => Request.selects_narrowedItems
        with hsame | ⟨_, hpath, rfl, hadds⟩
      · obtain ⟨_, _, hlop⟩ := ListQuery.eq_fill_of_of?_eq_some located
        have hself := ListOperation.withItems_items hlop
        exact .inl (hself ▸ hsame)
      · exact .inr ⟨rfl, q, located, hpath, hadds⟩

/-- A card of which only the identity is left: the items select it through the card as before, so
that the path to it is no exception. -/
theorem narrow_selects_nothing_new_card :
    let card (selections : List Selection) : Fragment := ⟨"Card", "Product", [], selections⟩
    let items := [.leaf typenameField, .spread "Card" []]
    let d := plainListDocument items [card [.leaf "name", .leaf "id"]]
    let columns := [Column.field "unknown"]
    let path : List FieldHead :=
      [⟨none, "products", [], []⟩, ⟨none, "items", [], []⟩, ⟨none, "id", [], []⟩]
    d.narrow {} columns = plainListDocument items [card [.leaf "id"]] ∧
      ∃ op' op, (d.narrow {} columns).operations[0]? = some op' ∧ d.operations[0]? = some op ∧
        Selects (d.narrow {} columns).fragments op'.selections path ∧
        Selects d.fragments op.selections path := by
  intro card items d columns path
  have hnarrow : d.narrow {} columns = plainListDocument items [card [.leaf "id"]] := by
    cbv
  have hop : (d.narrow {} columns).operations[0]? =
      some (plainListQuery items []).definitions.focus.operation := by
    rw [hnarrow]
    rfl
  have hcard : Selects [card [.leaf "id"]] items [⟨none, "id", [], []⟩] := by
    apply Selects.spread (f := card [.leaf "id"])
    · exact List.mem_cons_of_mem _ (List.mem_singleton_self _)
    · exact List.mem_singleton_self _
    · exact .last (List.mem_singleton_self _)
  have hpath : Selects (d.narrow {} columns).fragments
      (plainListQuery items []).definitions.focus.operation.selections path := by
    rw [hnarrow]
    exact .field (List.mem_singleton_self _) (.field (List.mem_singleton_self _) hcard)
  have hprovides : Provides d.fragments "Card" "id" := by
    apply Provides.field (f := card [.leaf "name", .leaf "id"])
    · exact List.mem_singleton_self _
    · exact ⟨.leaf "id", .here (List.mem_cons_of_mem _ (List.mem_singleton_self _)), rfl⟩
  obtain ⟨op, hgiven, hold⟩ := narrow_selects_nothing_new hop
  refine ⟨hnarrow, _, op, hop, hgiven, hpath, (hold path hpath).resolve_right ?_⟩
  intro hnew
  obtain ⟨_, q, hlocated, _, hadds⟩ := hnew
  cases (of?_plainListDocument items _).symm.trans hlocated
  exact hadds.absent "Card" (List.mem_singleton_self _) hprovides

end QueryShaping
