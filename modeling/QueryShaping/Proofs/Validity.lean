import QueryShaping.Proofs.NothingAdded
import QueryShaping.Proofs.Remains

namespace QueryShaping

namespace Request

variable {s : ListSettings} {r : Request} {defs : List Fragment} {items : List Selection}

theorem Kept.remainsOf {kept t : Selection} (h : Kept r kept t) : kept.RemainsOf t := by
  cases h with
  | whole => exact .refl _
  | leaves asked =>
    exact .field List.filter_sublist.subperm (Selection.RemainsOf.refl.refl_all _) fun _ => asked

theorem forall₂_filterMap {keep : Selection → Option Selection}
    (hkeep : ∀ {t kept}, keep t = some kept → Kept r kept t) (set : List Selection) :
    List.Forall₂ Selection.RemainsOf (set.filterMap keep)
      (set.filter fun t => (keep t).isSome) := by
  induction set with
  | nil => exact .nil
  | cons t rest ih =>
    cases hkept : keep t with
    | none => simpa [hkept] using ih
    | some kept => simpa [hkept] using ⟨(hkeep hkept).remainsOf, ih⟩

theorem remainAmong_narrowItem (needed : List Name) :
    RemainAmong (items.filterMap (r.narrowItem s) ++ firstSpreads needed items) items := by
  let isSpread (t : Selection) : Bool := t.spreadName?.isSome
  refine ⟨(items.filter fun t => (r.narrowItem s t).isSome) ++ firstSpreads needed items, ?_, ?_⟩
  · have hothers : (items.filter fun t => (r.narrowItem s t).isSome).Sublist
        (items.filter fun t => !isSpread t) := by
      apply List.monotone_filter_right
      intro t ht
      cases t with
      | spread name directives => cases ht
      | field head children => rfl
      | inline condition directives children => rfl
    have hapart := hothers.subperm.append (firstSpreads_sublist needed items).subperm
    have hitems := List.perm_append_comm.trans (List.filter_append_perm isSpread items)
    exact hapart.trans hitems.subperm
  · exact List.rel_append (forall₂_filterMap kept_of_narrowItem items)
      (Selection.RemainsOf.refl.refl_all _)

/-- The items that selections are dropped from: as they are, or with the identity in front. -/
inductive Offered (s : ListSettings) (r : Request) (defs : List Fragment) (items : List Selection) :
    List Selection → Prop where
  | given : Offered s r defs items items
  | identified (adds : r.AddsIdentity s defs items) :
      Offered s r defs items (.leaf s.identityField :: items)

theorem exists_offered (s : ListSettings) (r : Request) (defs : List Fragment)
    (items : List Selection) :
    ∃ offered, Offered s r defs items offered ∧
      RemainAmong (r.narrowedItems s defs items) offered := by
  rcases narrowItems_fst_or_adds s r defs items with heq | ⟨heq, adds⟩
  · refine ⟨items, .given, ?_⟩
    rw [narrowedItems, heq]
    exact remainAmong_narrowItem _
  · refine ⟨_, .identified adds, ?_⟩
    rw [narrowedItems, heq]
    exact (remainAmong_narrowItem _).cons (.refl _)

theorem narrowedItems_ne_nil (valid : Name.isValid s.identityField = true) :
    r.narrowedItems s defs items ≠ [] := by
  have hspread (name : Name) (hname : name ∈ (r.narrowItems s defs items).2)
      (hmem : name ∈ spreadNames items) : r.narrowedItems s defs items ≠ [] := by
    have hleft := mem_spreadNames_narrowedItems_iff.mpr ⟨hname, hmem⟩
    intro hnil
    rw [hnil] at hleft
    cases hleft
  rcases leavesBare_or_left s r defs items with hbare | hcontent | ⟨name, hmem, hneeds⟩
  · have hitems := narrowItems_of_bare hbare valid
    cases hfirst : (spreadNames items).find? (provides defs · s.identityField) with
    | some name =>
      apply hspread name _ (List.mem_of_find?_eq_some hfirst)
      rw [hitems, hfirst]
      exact List.mem_singleton_self name
    | none =>
      rw [narrowedItems, hitems, hfirst]
      exact List.cons_ne_nil _ _
  · rw [narrowedItems, narrowItems_of_left (.inl hcontent)]
    obtain ⟨t, ht, _⟩ := selectsContent_iff.mp hcontent
    exact List.append_ne_nil_of_left_ne_nil (List.ne_nil_of_mem ht) _
  · apply hspread name _ hmem
    rw [narrowItems_of_left (.inr ⟨name, hmem, hneeds⟩)]
    exact List.mem_filter.mpr ⟨hmem, hneeds⟩

theorem AddsIdentity.not_selected (h : r.AddsIdentity s defs items)
    (named : s.identityField ≠ typenameField) : s.identityField ∉ fieldNames items := by
  intro hmem
  obtain ⟨t, ht, hname⟩ := List.mem_filterMap.mp hmem
  have hkept : t ∈ items.filterMap (r.narrowItem s) :=
    List.mem_filterMap.mpr ⟨t, ht, narrowItem_of_identity hname⟩
  have hfield := hasField_iff.mpr (List.mem_filterMap.mpr ⟨t, hkept, hname⟩)
  rw [hasField_identity_of_bare h.bare named] at hfield
  cases hfield

/-- A trimmed definition is what remains of the fragment. The identity that stands in for content is
none of the selections that are kept, so it does not come twice. -/
theorem remainsOf_narrowFragment (named : s.identityField ≠ typenameField) (f : Fragment) :
    (r.narrowFragment s defs f).RemainsOf f := by
  have hparts : List.Forall₂ Selection.RemainsOf (f.selections.filterMap (r.narrowPart s defs))
      (f.selections.filter fun t => (r.narrowPart s defs t).isSome) :=
    forall₂_filterMap kept_of_narrowPart f.selections
  suffices hremain : RemainAmong (r.narrowFragment s defs f).selections f.selections ∧
      (f.selections ≠ [] → (r.narrowFragment s defs f).selections ≠ []) from
    ⟨narrowFragment_eq f, hremain.1, hremain.2⟩
  have htrims := trimsTo_narrowFragment s r defs f
  generalize r.narrowFragment s defs f = f' at htrims ⊢
  cases htrims with
  | parts stays =>
    obtain ⟨t, ht, hstay⟩ := stays
    obtain ⟨⟨kept, hpart⟩, _⟩ := stays_iff.mp hstay
    refine ⟨⟨_, List.filter_sublist.subperm, hparts⟩, fun _ => ?_⟩
    exact List.ne_nil_of_mem (List.mem_filterMap.mpr ⟨t, ht, hpart⟩)
  | @identified identity bare hmem hname =>
    refine ⟨⟨_, List.cons_subperm_of_not_mem_of_mem ?_ hmem List.filter_sublist.subperm,
      .cons (.refl identity) hparts⟩, fun _ => List.cons_ne_nil _ _⟩
    intro hkept
    obtain ⟨kept, hpart⟩ := Option.isSome_iff_exists.mp (List.mem_filter.mp hkept).2
    exact bare _ hmem (stays_iff.mpr ⟨⟨kept, hpart⟩, by simpa [hname] using named⟩)
  | whole _ => exact ⟨.refl _, id⟩

theorem remainsOf_trimmed (named : s.identityField ≠ typenameField) (f : Fragment) :
    (r.trimmed s defs items f).RemainsOf f := by
  unfold trimmed
  split
  · exact remainsOf_narrowFragment named f
  · exact .refl f

end Request

theorem RemainAmong.withItems {op : ListOperation} {left items : List Selection}
    (h : RemainAmong left items) (filled : items ≠ [] → left ≠ []) :
    RemainAmong (op.withItems left).operation.selections
      (op.withItems items).operation.selections := by
  apply And.left
  apply ListOperation.withItems_rel (R := fun left set =>
    RemainAmong left set ∧ (set ≠ [] → left ≠ [])) _ ⟨h, filled⟩
  intro β a head left set hbelow
  obtain ⟨⟨taken, once, remain⟩, filled⟩ := hbelow
  refine ⟨.around (.field once remain filled), fun _ => ?_⟩
  exact List.append_ne_nil_of_right_ne_nil _ (List.cons_ne_nil _ _)

theorem OnceThroughout.withItems {op : ListOperation} {items items' : List Selection}
    (hitems : OnceThroughout items → OnceThroughout items') :
    OnceThroughout (op.withItems items).operation.selections →
      OnceThroughout (op.withItems items').operation.selections := by
  apply ListOperation.withItems_rel (R := fun set set' =>
    OnceThroughout set → OnceThroughout set') _ hitems
  intro β a head below below' hbelow h
  obtain ⟨htop, hinner⟩ := onceThroughout_iff.mp h
  have hfields : fieldNames (a.fill (.field head below')) =
      fieldNames (a.fill (.field head below)) := by
    simp [fieldNames, Around.fill, Selection.fieldName?]
  have hspreads : spreadNames (a.fill (.field head below')) =
      spreadNames (a.fill (.field head below)) := by
    simp [spreadNames, Around.fill, List.filterMap_cons, Selection.spreadName?]
  refine onceThroughout_iff.mpr ⟨⟨hfields ▸ htop.fields, hspreads ▸ htop.spreads⟩, ?_⟩
  intro t ht
  rcases Around.mem_fill_iff.mp ht with rfl | hother
  · exact hbelow (hinner _ (Around.mem_fill_iff.mpr (.inl rfl)))
  · exact hinner t (Around.mem_fill_iff.mpr (.inr hother))

theorem OnceThroughout.leaf_cons {name : Name} {set : List Selection} (h : OnceThroughout set)
    (absent : name ∉ fieldNames set) : OnceThroughout (.leaf name :: set) := by
  obtain ⟨htop, hbelow⟩ := onceThroughout_iff.mp h
  refine onceThroughout_iff.mpr ⟨⟨List.nodup_cons.mpr ⟨absent, htop.fields⟩, htop.spreads⟩, ?_⟩
  intro t ht
  rcases List.mem_cons.mp ht with rfl | hrest
  · exact onceThroughout_nil
  · exact hbelow t hrest

theorem ListQuery.forall_selectionSets_withItems {s : ListSettings} {d : Document} {q : ListQuery}
    {items : List Selection} {p : List Selection → Prop} (located : of? s d = some q)
    (hitems : p (q.definitions.focus.withItems q.items).operation.selections →
      p (q.definitions.focus.withItems items).operation.selections)
    (h : ∀ set ∈ d.selectionSets, p set) : ∀ set ∈ (q.withItems items).selectionSets, p set := by
  rw [← withItems_items located] at h
  simp only [Document.selectionSets, operations_withItems located, fragments_withItems located,
    List.map_cons, List.cons_append, List.forall_mem_cons] at h ⊢
  exact ⟨hitems h.1, h.2⟩

theorem ownMark_not_filled : OwnMark (¬ ·.Filled) where
  own _ h := absurd trivial h
  bare _ h := h trivial

namespace Request

variable {s : ListSettings} {r : Request} {d : Document} {q : ListQuery}
  {offered : List Selection}

theorem remainsOf_sweep_narrowed (located : ListQuery.of? s d = some q)
    (named : s.identityField ≠ typenameField)
    (remain : RemainAmong (r.narrowedItems s d.fragments q.items) offered)
    (filled : r.narrowedItems s d.fragments q.items ≠ []) :
    (r.narrowed s d q).sweep.RemainsOf (q.withItems offered) where
  operations := by
    rw [Document.sweep, Document.operations_dropUnusedVariables,
      Document.operations_dropUnusedFragments, operations_narrowed located,
      ListQuery.operations_withItems located, List.map_cons]
    refine .cons (remain.withItems fun _ => filled) ?_
    exact List.forall₂_map_left_iff.mpr (List.forall₂_same.mpr fun _ _ => .refl _)
  fragments := by
    have htrimmed (defs : List Fragment) : List.Forall₂ Fragment.RemainsOf
        (defs.map (r.trimmed s d.fragments q.items)) defs :=
      List.forall₂_map_left_iff.mpr (List.forall₂_same.mpr fun f _ => remainsOf_trimmed named f)
    rw [Document.sweep, Document.fragments_dropUnusedVariables,
      Document.fragments_dropUnusedFragments, fragments_narrowed located,
      ListQuery.fragments_withItems located, List.filter_map]
    exact List.sublistForall₂_iff.mpr ⟨_, htrimmed _, List.filter_sublist⟩

theorem Offered.filled (h : Offered s r d.fragments q.items offered)
    (located : ListQuery.of? s d = some q) (hd : d.Filled) : (q.withItems offered).Filled := by
  cases h with
  | given =>
    rw [ListQuery.withItems_items located]
    exact hd
  | identified _ =>
    refine ⟨by rw [ListQuery.fragments_withItems located]; exact hd.fragments, ?_⟩
    apply ListQuery.forall_selectionSets_withItems located _ hd.inlines
    intro hfilled t ht
    by_contra hempty
    obtain ⟨t', ht', hempty'⟩ :=
      ownMark_not_filled.withItems ownMark_not_filled.of_leaf_cons ⟨t, ht, hempty⟩
    exact hempty' (hfilled t' ht')

theorem Offered.namesOnce (h : Offered s r d.fragments q.items offered)
    (located : ListQuery.of? s d = some q) (named : s.identityField ≠ typenameField)
    (hd : d.NamesOnce) : (q.withItems offered).NamesOnce := by
  cases h with
  | given =>
    rw [ListQuery.withItems_items located]
    exact hd
  | identified adds =>
    apply ListQuery.forall_selectionSets_withItems located _ hd
    exact OnceThroughout.withItems fun hitems => hitems.leaf_cons (adds.not_selected named)

end Request

/-- A narrowed document is valid if the given one is: its items select something, and so does every
fragment definition and inline fragment. It is what remains of the given document, with the identity
added to its items at most: no field that had selections below it comes to have none. And where no
name of a field or of a spread came twice in a selection set, none does. -/
theorem narrow_keeps_valid {s : ListSettings} {columns : List Column} {d : Document} {q : ListQuery}
    (located : ListQuery.of? s d = some q) (asked : columns ≠ [])
    (valid : Name.isValid s.identityField = true) (named : s.identityField ≠ typenameField)
    (filled : d.Filled) :
    (∃ q', ListQuery.of? s (d.narrow s columns) = some q' ∧ q.SamePlace q' ∧ q'.items ≠ []) ∧
      (d.narrow s columns).Filled ∧
      (∃ offered, (Request.ofColumns s.customField columns).Offered s d.fragments q.items offered ∧
        (d.narrow s columns).RemainsOf (q.withItems offered)) ∧
      (d.NamesOnce → (d.narrow s columns).NamesOnce) := by
  let r := Request.ofColumns s.customField columns
  rw [Document.narrow_eq asked located]
  obtain ⟨q', hq', hplace, hitems⟩ := Request.of?_sweep_narrowed (r := r) located
  obtain ⟨offered, hoffered, hamong⟩ := Request.exists_offered s r d.fragments q.items
  have hsome : r.narrowedItems s d.fragments q.items ≠ [] := Request.narrowedItems_ne_nil valid
  have hremains := Request.remainsOf_sweep_narrowed located named hamong hsome
  refine ⟨⟨q', hq', hplace, hitems ▸ hsome⟩, ?_, ⟨offered, hoffered, hremains⟩, ?_⟩
  · exact hremains.filled (hoffered.filled located filled)
  · intro honce
    exact hremains.namesOnce (hoffered.namesOnce located named honce)

/-- A card that is needed for its price, in an inline fragment: the name falls away beside it, in
the items as in the card, and what is left is as valid as what was there. -/
theorem narrow_keeps_valid_card :
    let price := Selection.inline none [] [.leaf "price"]
    let card (selections : List Selection) : Fragment := ⟨"Card", "Product", [], selections⟩
    let d := plainListDocument [.leaf "name", .spread "Card" []] [card [.leaf "name", price]]
    let d' := plainListDocument [.spread "Card" []] [card [price]]
    d.narrow {} [.field "price"] = d' ∧ d.Filled ∧ d.NamesOnce ∧ d'.Filled ∧ d'.NamesOnce := by
  intro price card d d'
  have hnarrow : d.narrow {} [.field "price"] = d' := by
    cbv
  have hfilled : d.Filled := by
    decide
  have honce : d.NamesOnce := by
    decide
  have hvalid := narrow_keeps_valid (of?_plainListDocument _ _)
    (List.cons_ne_nil (Column.field "price") []) rfl (by decide) hfilled
  rw [hnarrow] at hvalid
  exact ⟨hnarrow, hfilled, honce, hvalid.2.1, hvalid.2.2.2 honce⟩

end QueryShaping
