import QueryShaping.Proofs.Narrowing

namespace QueryShaping

/-- A column asked for by the name of a field other than the type name. If the items select it
themselves, they keep all its selections, unchanged and in order. Otherwise every fragment they
spread that provides it is still spread by them and still provides it. -/
theorem narrow_keeps_columns {s : ListSettings} {columns : List Column} {d : Document}
    {q : ListQuery} {c : Column} (located : ListQuery.of? s d = some q) (asked : c ∈ columns)
    (plain : c.isCustom = false) (named : c.name ≠ typenameField) :
    ∃ q', ListQuery.of? s (d.narrow s columns) = some q' ∧ q.SamePlace q' ∧
      (hasField c.name q.items = true →
        q'.items.filter (Selection.isFieldNamed c.name) =
          q.items.filter (Selection.isFieldNamed c.name)) ∧
      (hasField c.name q.items = false →
        ∀ name ∈ spreadNames q.items, Provides d.fragments name c.name →
          name ∈ spreadNames q'.items ∧
            Provides (d.narrow s columns).fragments name c.name) := by
  have hcolumns : columns ≠ [] := List.ne_nil_of_mem asked
  have hplain : c.name ∈ (Request.ofColumns s.customField columns).plain :=
    Request.mem_plain_ofColumns_iff.mpr ⟨c, asked, plain, rfl, named⟩
  rw [Document.narrow_eq hcolumns located]
  obtain ⟨q', hq', hplace, hitems⟩ := Request.of?_sweep_narrowed
    (r := Request.ofColumns s.customField columns) located
  refine ⟨q', hq', hplace, ?_, ?_⟩
  · intro hdirect
    rw [hitems]
    exact Request.filter_narrowedItems named
      (fun _ hname => Request.narrowItem_of_plain hname hplain) hdirect
  · intro hmissing name hmem hprovides
    have hasks : c.name ∈ (Request.ofColumns s.customField columns).missing s q.items :=
      Request.mem_missing_iff.mpr ⟨.inl hplain, hmissing⟩
    have hkept := Request.mem_spreadNames_narrowedItems_of_missing hmem hasks hprovides
    rw [hitems, Request.provides_sweep_narrowed_iff located hkept]
    exact ⟨hkept, Request.provides_trimmed hprovides hplain named⟩

/-- Cards and assets that spread each other, cards defined twice: the preview is provided through
the second definition of cards and an inline fragment of assets. -/
def cyclicCards : List Fragment := [
  ⟨"Card", "Product", [], [.leaf "name"]⟩,
  ⟨"Card", "Product", [], [.leaf "slug", .spread "Asset" []]⟩,
  ⟨"Asset", "Product", [], [.spread "Card" [], .inline none [] [.leaf "preview"], .leaf "id"]⟩]

theorem provides_cyclicCards : Provides cyclicCards "Card" "preview" := by
  have htop : Fragment.TopSelects (cyclicCards[2]) "preview" :=
    ⟨.leaf "preview", .deeper (t := .inline none [] [.leaf "preview"]) (by simp [cyclicCards])
      (.here (by simp [Selection.inlined])), rfl⟩
  have hspread : Fragment.TopLeadsTo (cyclicCards[1]) "Asset" :=
    ⟨.spread "Asset" [], .here (by simp [cyclicCards]), rfl⟩
  have hasset : Provides cyclicCards "Asset" "preview" := .field (List.getElem_mem _) htop
  exact .spread (List.getElem_mem _) hspread hasset

theorem narrow_keeps_columns_cyclicCards :
    let d := plainListDocument [.leaf "id", .spread "Card" []] cyclicCards
    let columns := [Column.field "preview"]
    ListQuery.of? {} d = some (plainListQuery [.leaf "id", .spread "Card" []] cyclicCards) ∧
      Column.field "preview" ∈ columns ∧ (Column.field "preview").isCustom = false ∧
      "preview" ≠ typenameField ∧
      ∃ q', ListQuery.of? {} (d.narrow {} columns) = some q' ∧ "Card" ∈ spreadNames q'.items ∧
        Provides (d.narrow {} columns).fragments "Card" "preview" := by
  intro d columns
  have hlocated := of?_plainListDocument [.leaf "id", .spread "Card" []] cyclicCards
  have hasked : Column.field "preview" ∈ columns := List.mem_singleton_self _
  have hname : "preview" ≠ typenameField := by decide
  obtain ⟨q', hq', _, _, hkept⟩ := narrow_keeps_columns hlocated hasked rfl hname
  exact ⟨hlocated, hasked, rfl, hname, q', hq', hkept rfl "Card" (by decide) provides_cyclicCards⟩

end QueryShaping
