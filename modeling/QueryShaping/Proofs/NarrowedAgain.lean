import Mathlib
import QueryShaping.Proofs.ColumnsKept
import QueryShaping.Proofs.NarrowingFrame
import QueryShaping.Proofs.SweepStable

namespace QueryShaping

theorem filterMap_filterMap_self {α : Type} {keep : α → Option α}
    (again : ∀ t kept, keep t = some kept → keep kept = some kept) (l : List α) :
    (l.filterMap keep).filterMap keep = l.filterMap keep := by
  rw [List.filterMap_filterMap]
  apply List.filterMap_congr
  intro t _
  cases hkept : keep t with
  | none => rfl
  | some kept => exact again t kept hkept

theorem Provides.of_map {defs : List Fragment} {change : Fragment → Fragment} {fragment x : Name}
    (h : Provides (defs.map change) fragment x) (hname : ∀ f, (change f).name = f.name)
    (left : ∀ f, ∀ t ∈ (change f).selections, ∃ whole ∈ f.selections, t.LeftOf whole) :
    Provides defs fragment x := by
  induction h with
  | field member top =>
    obtain ⟨f, hf, rfl⟩ := List.mem_map.mp member
    obtain ⟨t, ht, hfield⟩ := top
    obtain ⟨whole, hwhole, hleft⟩ := ht.of_leftOf (left f)
    rw [hname]
    exact .field hf ⟨whole, hwhole, hleft.fieldName?_eq ▸ hfield⟩
  | spread member top _ ih =>
    obtain ⟨f, hf, rfl⟩ := List.mem_map.mp member
    obtain ⟨t, ht, hspread⟩ := top
    obtain ⟨whole, hwhole, hleft⟩ := ht.of_leftOf (left f)
    rw [hname]
    exact .spread hf ⟨whole, hwhole, hleft.spreadName?_eq ▸ hspread⟩ ih

namespace Request

/-- Nothing but fields of an item is asked for, and the type name is none of them. -/
structure PlainOnly (r : Request) : Prop where
  custom : r.custom = []
  content : typenameField ∉ r.plain

theorem plainOnly_ofColumns {object : Name} {columns : List Column}
    (plain : ∀ c ∈ columns, c.isCustom = false) : (ofColumns object columns).PlainOnly where
  custom := by
    rw [List.eq_nil_iff_forall_not_mem]
    intro leaf hleaf
    obtain ⟨c, hc, hcustom, _⟩ := mem_custom_ofColumns_iff.mp hleaf
    rw [plain c hc] at hcustom
    cases hcustom
  content := by
    intro htype
    obtain ⟨_, _, _, _, hne⟩ := mem_plain_ofColumns_iff.mp htype
    exact hne rfl

variable {s : ListSettings} {r : Request} {defs live : List Fragment} {items : List Selection}

theorem PlainOnly.asksCustom_eq (plain : r.PlainOnly) : r.asksCustom = false := by
  simp [asksCustom, plain.custom]

theorem PlainOnly.asks_iff (plain : r.PlainOnly) {x : Name} :
    r.asks s.customField x = true ↔ x ∈ r.plain := by
  simp [asks, asksPlain, plain.asksCustom_eq]

theorem PlainOnly.mem_missing_iff (plain : r.PlainOnly) {x : Name} :
    x ∈ r.missing s items ↔ x ∈ r.plain ∧ hasField x items = false := by
  simp [Request.mem_missing_iff, plain.asksCustom_eq]

theorem Kept.eq (h : Kept r kept t) (plain : r.PlainOnly) : kept = t := by
  cases h with
  | whole => rfl
  | leaves asked =>
    obtain ⟨leaf, _, hleaf⟩ := keptLeaves_ne_nil_iff.mp asked
    rw [plain.custom] at hleaf
    cases hleaf

theorem narrowItem_again (plain : r.PlainOnly) (t kept : Selection)
    (h : r.narrowItem s t = some kept) : r.narrowItem s kept = some kept := by
  obtain rfl := (kept_of_narrowItem h).eq plain
  exact h

theorem narrowPart_again (plain : r.PlainOnly) (t kept : Selection)
    (h : r.narrowPart s defs t = some kept) : r.narrowPart s defs kept = some kept := by
  obtain rfl := (kept_of_narrowPart h).eq plain
  exact h

/-- A trimmed definition is trimmed to itself. The identity that stands in for content is in front
of it then, and comes there again. -/
theorem narrowFragment_again (plain : r.PlainOnly) (named : s.identityField ≠ typenameField)
    (f : Fragment) :
    r.narrowFragment s defs (r.narrowFragment s defs f) = r.narrowFragment s defs f := by
  have hparts : (f.selections.filterMap (r.narrowPart s defs)).filterMap (r.narrowPart s defs) =
      f.selections.filterMap (r.narrowPart s defs) :=
    filterMap_filterMap_self (narrowPart_again plain) f.selections
  have htrims := trimsTo_narrowFragment s r defs f
  generalize heq : r.narrowFragment s defs f = f' at htrims ⊢
  cases htrims with
  | parts stays =>
    have hcontent := selectsContent_parts_iff.mpr stays
    simp only [narrowFragment, hparts, hcontent, if_true]
  | @identified identity bare member hname =>
    have hcontent : selectsContent (f.selections.filterMap (r.narrowPart s defs)) = false := by
      rw [← Bool.not_eq_true, selectsContent_parts_iff]
      simpa using bare
    have hidentity : r.narrowPart s defs identity = none := by
      rw [Option.eq_none_iff_forall_ne_some]
      intro kept hkept
      exact bare identity member (stays_iff.mpr ⟨⟨kept, hkept⟩, by simpa [hname] using named⟩)
    have hfirst : firstField? s.identityField
        (identity :: f.selections.filterMap (r.narrowPart s defs)) = some identity := by
      simp [firstField?, Selection.isFieldNamed, hname]
    simp [narrowFragment, hidentity, hparts, hcontent, hfirst]
  | whole _ => exact heq

theorem narrowFragment_congr {f : Fragment} (same : ∀ name ∈ spreadNames f.selections, ∀ x,
      r.asks s.customField x = true → (Provides live name x ↔ Provides defs name x)) :
    r.narrowFragment s live f = r.narrowFragment s defs f := by
  have hparts : ∀ t ∈ f.selections, r.narrowPart s live t = r.narrowPart s defs t := by
    intro t ht
    cases t with
    | field head children => rfl
    | inline condition directives children => rfl
    | spread name directives =>
      have hname : name ∈ spreadNames f.selections := List.mem_filterMap.mpr ⟨_, ht, rfl⟩
      have hby : r.providedBy s live name = r.providedBy s defs name := by
        rw [Bool.eq_iff_iff, providedBy_iff, providedBy_iff]
        exact exists_congr fun x => and_congr_right (same name hname x)
      rw [narrowPart, narrowPart, hby]
  rw [narrowFragment, narrowFragment, List.filterMap_congr hparts]

theorem provides_trimmed_iff {fragment x : Name} (hx : x ∈ r.plain) (hne : x ≠ typenameField) :
    Provides (defs.map (r.trimmed s defs items)) fragment x ↔ Provides defs fragment x := by
  constructor
  · intro h
    exact h.of_map name_trimmed fun f _ ht => leftOf_trimmed f ht
  · intro h
    exact provides_trimmed h hx hne

theorem filterMap_narrowItem_firstSpreads (needed : List Name) :
    (firstSpreads needed items).filterMap (r.narrowItem s) = [] := by
  apply List.filterMap_eq_nil_iff.mpr
  intro t ht
  obtain ⟨fragment, directives, rfl⟩ := exists_of_mem_firstSpreads ht
  rfl

theorem firstSpreads_append {needed : List Name} {kept rest : List Selection}
    (hkept : spreadNames kept = []) :
    firstSpreads needed (kept ++ rest) = firstSpreads needed rest := by
  induction kept with
  | nil => rfl
  | cons t kept ih =>
    have hnone : t.spreadName? = none ∧ spreadNames kept = [] := by
      cases ht : t.spreadName? <;> simp_all [spreadNames]
    cases t with
    | field head children => exact ih hnone.2
    | inline condition directives children => exact ih hnone.2
    | spread name directives => cases hnone.1

theorem firstSpreads_again {needed among : List Name}
    (h : ∀ name ∈ spreadNames (firstSpreads needed items), name ∈ among) :
    firstSpreads among (firstSpreads needed items) = firstSpreads needed items := by
  induction items generalizing needed among with
  | nil => rfl
  | cons t rest ih =>
    cases t with
    | field head children => exact ih h
    | inline condition directives children => exact ih h
    | spread fragment directives =>
      simp only [firstSpreads] at h ⊢
      split
      · rename_i hneeded
        rw [if_pos hneeded] at h
        have hfirst : among.contains fragment = true := by
          rw [List.contains_iff_mem]
          exact h fragment (mem_spreadNames_cons_iff.mpr (.inl rfl))
        have hrest : ∀ name ∈ spreadNames (firstSpreads (needed.filter (· != fragment)) rest),
            name ∈ among.filter (· != fragment) := by
          intro name hname
          have hother := (mem_spreadNames_firstSpreads_iff.mp hname).1
          exact List.mem_filter.mpr ⟨h name (mem_spreadNames_cons_iff.mpr (.inr hname)),
            (List.mem_filter.mp hother).2⟩
        rw [firstSpreads, if_pos hfirst, ih hrest]
      · rename_i hneeded
        rw [if_neg hneeded] at h
        exact ih h

theorem not_leavesBare_of_itemsProvide {x : Name} (plain : r.PlainOnly) (hx : x ∈ r.plain)
    (available : ItemsProvide defs items x) : ¬ r.LeavesBare s defs items := by
  intro bare
  by_cases hdirect : hasField x items = true
  · obtain ⟨t, ht, hname⟩ := List.mem_filterMap.mp (hasField_iff.mp hdirect)
    have hkept := List.mem_filterMap.mpr ⟨t, ht, narrowItem_of_plain (s := s) hname hx⟩
    have hne : x ≠ typenameField := fun htype => plain.content (htype ▸ hx)
    exact bare.not_left (.inl (selectsContent_iff.mpr ⟨t, hkept, by simpa [hname] using hne⟩))
  · obtain ⟨name, hmem, hprovides⟩ := available.resolve_left hdirect
    have hmissing : x ∈ r.missing s items :=
      plain.mem_missing_iff.mpr ⟨hx, by simpa using hdirect⟩
    exact bare.spreads name hmem x hmissing hprovides

theorem hasField_narrowedItems {x : Name} (hx : x ∈ r.plain) (left : ¬ r.LeavesBare s defs items) :
    hasField x (r.narrowedItems s defs items) = hasField x items := by
  have hfields : (items.filterMap (r.narrowItem s)).filter (Selection.isFieldNamed x) =
      items.filter (Selection.isFieldNamed x) :=
    filter_filterMap_narrowItem fun _ hname => narrowItem_of_plain hname hx
  rw [narrowedItems, narrowItems_of_left ((leavesBare_or_left s r defs items).resolve_left left),
    hasField_append_firstSpreads, Bool.eq_iff_iff, hasField, hasField, List.any_eq_true,
    List.any_eq_true]
  simp only [← List.mem_filter, hfields]

/-- Items that are narrowed and not left bare are narrowed to themselves, over definitions by which
the fragments they spread still provide what they were needed for. -/
theorem narrowedItems_again (plain : r.PlainOnly) (left : ¬ r.LeavesBare s defs items)
    (still : ∀ name ∈ spreadNames (r.narrowedItems s defs items), ∀ x ∈ r.plain,
      Provides defs name x → Provides live name x) :
    r.narrowedItems s live (r.narrowedItems s defs items) = r.narrowedItems s defs items := by
  have hleft := (leavesBare_or_left s r defs items).resolve_left left
  have hitems : r.narrowedItems s defs items = items.filterMap (r.narrowItem s) ++
      firstSpreads ((spreadNames items).filter (r.needs s defs items)) items := by
    rw [narrowedItems, narrowItems_of_left hleft]
  have hkept : (r.narrowedItems s defs items).filterMap (r.narrowItem s) =
      items.filterMap (r.narrowItem s) := by
    rw [hitems, List.filterMap_append, filterMap_narrowItem_firstSpreads, List.append_nil]
    exact filterMap_filterMap_self (narrowItem_again plain) items
  have hspreads : spreadNames (r.narrowedItems s defs items) =
      spreadNames (firstSpreads ((spreadNames items).filter (r.needs s defs items)) items) := by
    rw [spreadNames_narrowedItems, narrowItems_of_left hleft]
  have hneeded : ∀ name ∈ spreadNames (r.narrowedItems s defs items),
      r.needs s live (r.narrowedItems s defs items) name = true := by
    intro name hname
    have hfirst := (mem_spreadNames_narrowedItems_iff.mp hname).1
    rw [narrowItems_of_left hleft] at hfirst
    obtain ⟨x, hmissing, hprovides⟩ := needs_iff.mp (List.mem_filter.mp hfirst).2
    obtain ⟨hx, hdirect⟩ := plain.mem_missing_iff.mp hmissing
    rw [← hasField_narrowedItems hx left] at hdirect
    exact needs_iff.mpr
      ⟨x, plain.mem_missing_iff.mpr ⟨hx, hdirect⟩, still name hname x hx hprovides⟩
  have hleft' : selectsContent ((r.narrowedItems s defs items).filterMap (r.narrowItem s)) = true ∨
      ∃ name ∈ spreadNames (r.narrowedItems s defs items),
        r.needs s live (r.narrowedItems s defs items) name = true := by
    rw [hkept]
    rcases hleft with hcontent | ⟨name, hname, hneeds⟩
    · exact .inl hcontent
    · have hspread : name ∈ spreadNames (r.narrowedItems s defs items) := by
        rw [hspreads, mem_spreadNames_firstSpreads_iff]
        exact ⟨List.mem_filter.mpr ⟨hname, hneeds⟩, hname⟩
      exact .inr ⟨name, hspread, hneeded name hspread⟩
  calc r.narrowedItems s live (r.narrowedItems s defs items)
      = items.filterMap (r.narrowItem s) ++ firstSpreads
          (spreadNames (r.narrowedItems s defs items)) (r.narrowedItems s defs items) := by
        rw [narrowedItems, narrowItems_of_left hleft', hkept, List.filter_eq_self.mpr hneeded]
    _ = items.filterMap (r.narrowItem s) ++
          firstSpreads ((spreadNames items).filter (r.needs s defs items)) items := by
        rw [hspreads, hitems, firstSpreads_append spreadNames_filterMap_narrowItem,
          firstSpreads_again fun _ hname => hname]
    _ = r.narrowedItems s defs items := hitems.symm

variable {d : Document} {q q' : ListQuery}

theorem provides_sweep_narrowed_iff_of_reachable {name x : Name} (plain : r.PlainOnly)
    (located : ListQuery.of? s d = some q) (hr : (r.narrowed s d q).Reachable name)
    (hx : x ∈ r.plain) :
    Provides (r.narrowed s d q).sweep.fragments name x ↔ Provides d.fragments name x := by
  have hne : x ≠ typenameField := fun htype => plain.content (htype ▸ hx)
  rw [Document.sweep, Document.fragments_dropUnusedVariables, provides_dropUnusedFragments_iff hr,
    fragments_narrowed located, provides_trimmed_iff hx hne]

theorem mem_sweep_narrowed {f' : Fragment} (located : ListQuery.of? s d = some q)
    (hf' : f' ∈ (r.narrowed s d q).sweep.fragments) :
    (r.narrowed s d q).Reachable f'.name ∧
      ∃ f ∈ d.fragments, f' = r.trimmed s d.fragments q.items f := by
  have hreached := (Document.nothingUnused_sweep (r.narrowed s d q)).reached f' hf'
  rw [Document.sweep, Document.reachable_dropUnusedVariables_iff,
    Document.reachable_dropUnusedFragments_iff] at hreached
  rw [Document.sweep, Document.fragments_dropUnusedVariables] at hf'
  have hmem := Document.mem_of_mem_dropUnusedFragments hf'
  rw [fragments_narrowed located] at hmem
  obtain ⟨f, hf, heq⟩ := List.mem_map.mp hmem
  exact ⟨hreached, f, hf, heq.symm⟩

theorem trimmed_again (plain : r.PlainOnly) (named : s.identityField ≠ typenameField)
    (located : ListQuery.of? s d = some q) {f' : Fragment}
    (hf' : f' ∈ (r.narrowed s d q).sweep.fragments) :
    r.trimmed s (r.narrowed s d q).sweep.fragments (r.narrowedItems s d.fragments q.items) f' =
      f' := by
  obtain ⟨hreached, f, hf, rfl⟩ := mem_sweep_narrowed located hf'
  have hsame : ∀ name ∈ spreadNames (r.trimmed s d.fragments q.items f).selections, ∀ x,
      r.asks s.customField x = true →
        (Provides (r.narrowed s d q).sweep.fragments name x ↔ Provides d.fragments name x) := by
    intro name hname x hx
    obtain ⟨t, ht, hspread⟩ := List.mem_filterMap.mp hname
    have hmem : r.trimmed s d.fragments q.items f ∈ (r.narrowed s d q).fragments := by
      rw [fragments_narrowed located]
      exact List.mem_map_of_mem hf
    exact provides_sweep_narrowed_iff_of_reachable plain located
      (.step hmem hreached ⟨t, .here ht, hspread⟩) (plain.asks_iff.mp hx)
  by_cases hagain : (r.trimmed s d.fragments q.items f).name ∈
      (r.narrowItems s (r.narrowed s d q).sweep.fragments
        (r.narrowedItems s d.fragments q.items)).2
  · -- Only what was trimmed the first time is spread by the narrowed items.
    have hspread := narrowItems_snd_subset hagain
    have hfirst := (mem_spreadNames_narrowedItems_iff.mp hspread).1
    rw [name_trimmed] at hfirst
    rw [trimmed_of_mem hagain, narrowFragment_congr hsame, trimmed_of_mem hfirst,
      narrowFragment_again plain named]
  · exact trimmed_of_not_mem hagain

theorem narrowed_again (plain : r.PlainOnly) (named : s.identityField ≠ typenameField)
    (located : ListQuery.of? s d = some q) (left : ¬ r.LeavesBare s d.fragments q.items)
    (located' : ListQuery.of? s (r.narrowed s d q).sweep = some q')
    (hitems : q'.items = r.narrowedItems s d.fragments q.items) :
    r.narrowed s (r.narrowed s d q).sweep q' = (r.narrowed s d q).sweep := by
  have hsame : r.narrowedItems s (r.narrowed s d q).sweep.fragments q'.items = q'.items := by
    rw [hitems]
    apply narrowedItems_again plain left
    intro name hname x hx hprovides
    have hreached := reachable_of_narrowedItems located hname
    exact (provides_sweep_narrowed_iff_of_reachable plain located hreached hx).mpr hprovides
  have hdefs : ∀ x ∈ (r.narrowed s d q).sweep.definitions,
      x.mapFragment (r.trimmed s (r.narrowed s d q).sweep.fragments q'.items) = x := by
    intro x hx
    cases x with
    | operation op => rfl
    | fragment f =>
      have hf : f ∈ (r.narrowed s d q).sweep.fragments := List.mem_filterMap.mpr ⟨_, hx, rfl⟩
      rw [Definition.mapFragment, hitems, trimmed_again plain named located hf]
    | typeSystem t => rfl
  rw [narrowed_eq, hsame, ListQuery.withItems_items located', List.map_congr_left hdefs,
    List.map_id']

end Request

/-- Narrowing twice to fields of an item is narrowing once, where the items provide one of the
fields asked for. -/
theorem narrow_narrow {s : ListSettings} {columns : List Column} {d : Document} {q : ListQuery}
    {c : Column} (located : ListQuery.of? s d = some q) (named : s.identityField ≠ typenameField)
    (plain : ∀ c ∈ columns, c.isCustom = false) (asked : c ∈ columns)
    (content : c.name ≠ typenameField) (available : ItemsProvide d.fragments q.items c.name) :
    (d.narrow s columns).narrow s columns = d.narrow s columns := by
  have hcolumns : columns ≠ [] := List.ne_nil_of_mem asked
  have honly : (Request.ofColumns s.customField columns).PlainOnly :=
    Request.plainOnly_ofColumns plain
  have hasked : c.name ∈ (Request.ofColumns s.customField columns).plain :=
    Request.mem_plain_ofColumns_iff.mpr ⟨c, asked, plain c asked, rfl, content⟩
  have hleft := Request.not_leavesBare_of_itemsProvide (s := s) honly hasked available
  obtain ⟨q', hq', _, hitems⟩ := Request.of?_sweep_narrowed
    (r := Request.ofColumns s.customField columns) located
  rw [Document.narrow_eq hcolumns located, Document.narrow_eq hcolumns hq',
    Request.narrowed_again honly named located hleft hq' hitems]
  exact Document.sweep_eq_self_iff.mpr (Document.nothingUnused_sweep _)

/-- Cards are needed for a preview. Of their three definitions one keeps the spread that leads to
it, one has nothing to keep and stays whole, and one is down to its identity; none of that changes
when the document is narrowed again. -/
theorem narrow_narrow_cyclicCards :
    let items : List Selection := [.leaf "id", .leaf "sku", .spread "Card" []]
    let card (selections : List Selection) : Fragment := ⟨"Card", "Product", [], selections⟩
    let asset : Fragment := ⟨"Asset", "Product", [],
      [.spread "Card" [], .inline none [] [.leaf "preview"], .leaf "id"]⟩
    let d := plainListDocument items
      (cyclicCards ++ [card [.leaf "price", .leaf "id", .leaf typenameField]])
    let d' := plainListDocument [.leaf "id", .spread "Card" []]
      [card [.leaf "name"], card [.spread "Asset" []], asset,
        card [.leaf "id", .leaf typenameField]]
    let columns := [Column.field "preview"]
    "id" ≠ typenameField ∧ (∀ c ∈ columns, c.isCustom = false) ∧
      Column.field "preview" ∈ columns ∧ "preview" ≠ typenameField ∧
      ItemsProvide d.fragments items "preview" ∧
      d.narrow {} columns = d' ∧ d'.narrow {} columns = d' := by
  intro items card asset d d' columns
  have hnamed : "id" ≠ typenameField := by decide
  have hplain : ∀ c ∈ columns, c.isCustom = false := by decide
  have hasked : Column.field "preview" ∈ columns := List.mem_singleton_self _
  have hcontent : "preview" ≠ typenameField := by decide
  have hprovides : ItemsProvide d.fragments items "preview" :=
    .inr ⟨"Card", by decide, provides_cyclicCards.mono fun f hf => List.mem_append_left _ hf⟩
  have hnarrow : d.narrow {} columns = d' := by
    cbv
  have hagain := narrow_narrow (of?_plainListDocument _ _) hnamed hplain hasked hcontent hprovides
  rw [hnarrow] at hagain
  exact ⟨hnamed, hplain, hasked, hcontent, hprovides, hnarrow, hagain⟩

end QueryShaping
