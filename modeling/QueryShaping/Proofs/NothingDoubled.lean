import QueryShaping.Proofs.MergeSequence

namespace QueryShaping

theorem mergeKeys_sublist_mergeSelections (base added : List Selection) :
    (mergeKeys base).Sublist (mergeKeys (mergeSelections base added)) := by
  induction base generalizing added with
  | nil => exact List.nil_sublist _
  | cons s base ih =>
    have hrest := ih (added.filter fun t => !s.takes t)
    simp only [mergeKeys, mergeSelections_cons, List.filterMap_cons,
      Selection.key?_grownBy] at hrest ⊢
    cases s.key? with
    | none => exact hrest
    | some key => exact hrest.cons_cons key

theorem namesOnce_mergeSelections_iff {base added : List Selection} :
    NamesOnce (mergeSelections base added) ↔ NamesOnce base := by
  constructor
  · intro h
    rw [← nodup_mergeKeys_iff] at h ⊢
    exact h.sublist (mergeKeys_sublist_mergeSelections base added)
  · intro h
    exact h.mergeSelections added

theorem onceThroughout_cons_iff {s : Selection} {rest : List Selection} :
    OnceThroughout (s :: rest) ↔
      NamesOnce (s :: rest) ∧ OnceThroughout s.children ∧ OnceThroughout rest := by
  constructor
  · intro h
    exact ⟨h.1, h.of_mem List.mem_cons_self, h.of_sublist (List.sublist_cons_self s rest)⟩
  · intro h
    obtain ⟨honce, hfirst, hrest⟩ := h
    refine onceThroughout_iff.mpr ⟨honce, ?_⟩
    intro t ht
    rcases List.mem_cons.mp ht with rfl | ht
    · exact hfirst
    · exact hrest.of_mem ht

theorem Selection.onceThroughout_grownBy_iff {s : Selection} {added : List Selection}
    (below : ∀ head children, s = .field head children →
      (OnceThroughout (mergeSelections children (underName head.name added)) ↔
        OnceThroughout children)) :
    OnceThroughout (s.grownBy added).children ↔ OnceThroughout s.children := by
  cases s with
  | field head children =>
    rw [grownBy]
    split
    · rename_i hleaf
      rw [List.isEmpty_iff] at hleaf
      simp only [Selection.children, hleaf]
    · exact below head children rfl
  | spread fragment directives => rfl
  | inline condition directives children => rfl

/-- Merging never creates doubles: if no selection set of the extension, at any depth, has two
fields of one name or two spreads of one fragment, then none of the merge does exactly if none of
the base does. Base and extension need not agree on whether a field is a leaf. -/
theorem mergeSelections_doubles_nothing {base added : List Selection}
    (once : OnceThroughout added) :
    OnceThroughout (mergeSelections base added) ↔ OnceThroughout base := by
  induction base, added using mergeSelections_induction with
  | nil => rfl
  | first s added ih =>
    rw [mergeSelections_nil_cons, ih (once.of_sublist (List.sublist_cons_self s added))]
    have hfirst : OnceThroughout [s] := once.of_sublist (by simp)
    exact iff_of_true hfirst onceThroughout_nil
  | cons s base added below ih =>
    have hgrown : OnceThroughout (s.grownBy added).children ↔ OnceThroughout s.children :=
      Selection.onceThroughout_grownBy_iff fun head children hs =>
        below head children hs (once.below head.name)
    have hrest := ih (once.of_sublist List.filter_sublist)
    have htop : NamesOnce (mergeSelections (s :: base) added) ↔ NamesOnce (s :: base) :=
      namesOnce_mergeSelections_iff
    rw [mergeSelections_cons] at htop ⊢
    rw [onceThroughout_cons_iff, htop, hgrown, hrest, ← onceThroughout_cons_iff]

/-- A field that is a leaf on one side only, in either direction, and names that come again in an
inline fragment and at another depth. -/
theorem mergeSelections_doubles_nothing_nested :
    let onT : Selection := .inline (some "T") [] [.leaf "x", .spread "F" []]
    let base : List Selection := [.leaf "a", .field ⟨none, "b", [], []⟩ [.leaf "x", onT],
      .spread "F" []]
    let added : List Selection := [.field ⟨none, "a", [], []⟩ [.leaf "x"], onT,
      .field ⟨none, "b", [], []⟩ [.leaf "a", .leaf "x", onT], .spread "F" [], .leaf "c"]
    OnceThroughout added ∧ OnceThroughout base ∧ OnceThroughout (mergeSelections base added) ∧
      mergeSelections base added = [.leaf "a",
        .field ⟨none, "b", [], []⟩ [.leaf "x", onT, .leaf "a", onT], .spread "F" [], onT,
        .leaf "c"] := by
  intro onT base added
  have once : OnceThroughout added := by decide
  have once' : OnceThroughout base := by decide
  exact ⟨once, once', (mergeSelections_doubles_nothing once).mpr once', rfl⟩

/-- There is no inline fragment in a selection set, at any depth. -/
def NoInlines (set : List Selection) : Prop :=
  ∀ s, Within s set → s.isInline = false

instance : DecidablePred NoInlines := fun set =>
  decidable_of_iff (∀ s ∈ allOf set, s.isInline = false) (by simp only [NoInlines, mem_allOf_iff])

namespace NoInlines

variable {set more : List Selection}

theorem of_subset (h : NoInlines more) (subset : set ⊆ more) : NoInlines set := by
  intro s hs
  exact h s (hs.of_subset fun t ht => subset ht)

theorem children {s : Selection} (h : NoInlines set) (member : s ∈ set) : NoInlines s.children := by
  intro t ht
  exact h t (.deeper member ht)

theorem below (h : NoInlines set) (name : Name) : NoInlines (underName name set) := by
  intro s hs
  cases hs with
  | here member =>
    obtain ⟨head, children, hfield, _, hs⟩ := mem_underName_iff.mp member
    exact h.children hfield s (.here hs)
  | deeper member inner =>
    obtain ⟨head, children, hfield, _, ht⟩ := mem_underName_iff.mp member
    exact h.children hfield s (.deeper ht inner)

end NoInlines

theorem NamesOnce.takes_first {s : Selection} {rest : List Selection}
    (once : NamesOnce (s :: rest)) (bare : s.isInline = false) :
    s.takes s = true ∧ ∀ t ∈ rest, s.takes t = false := by
  rw [Selection.isInline_eq, Option.isNone_eq_false_iff] at bare
  obtain ⟨key, hkey⟩ := Option.isSome_iff_exists.mp bare
  refine ⟨Selection.takes_iff.mpr ⟨key, hkey, hkey⟩, ?_⟩
  intro t ht
  rw [← Bool.not_eq_true]
  intro htakes
  obtain ⟨_, hown, hsame⟩ := Selection.takes_iff.mp htakes
  cases hkey.symm.trans hown
  have honce := nodup_mergeKeys_iff.mpr once
  simp only [mergeKeys, List.filterMap_cons, hkey, List.nodup_cons] at honce
  exact honce.1 (List.mem_filterMap.mpr ⟨t, ht, hsame⟩)

mutual

theorem Selection.grownBy_self : ∀ s : Selection, OnceThroughout s.children →
    NoInlines s.children → s.grownBy [s] = s
  | .field head children, once, bare => by
    have hunder : underName head.name [.field head children] = children := by
      simp [underName, Selection.isFieldNamed, Selection.fieldName?, Selection.children]
    rw [Selection.grownBy, hunder, mergeSelections_self children once bare]
    cases children <;> rfl
  | .spread _ _, _, _ => rfl
  | .inline _ _ _, _, _ => rfl

theorem mergeSelections_self : ∀ set : List Selection, OnceThroughout set → NoInlines set →
    mergeSelections set set = set
  | [], _, _ => mergeSelections_nil_right []
  | s :: rest, once, bare => by
    obtain ⟨honce, hchildren, hrest⟩ := onceThroughout_cons_iff.mp once
    obtain ⟨hself, hothers⟩ := honce.takes_first (bare s (.here List.mem_cons_self))
    have htaken : (s :: rest).filter s.takes = [s] := by
      simpa [hself] using hothers
    have hleft : ((s :: rest).filter fun t => !s.takes t) = rest := by
      simpa [hself] using hothers
    have hgrown : s.grownBy (s :: rest) = s := by
      rw [← s.grownBy_filter (s :: rest) s.takes fun _ _ h => h, htaken,
        s.grownBy_self hchildren (bare.children List.mem_cons_self)]
    rw [mergeSelections_cons, hgrown, hleft,
      mergeSelections_self rest hrest (bare.of_subset (List.subset_cons_self s rest))]

end

theorem Selection.grownBy_again {s : Selection} {added : List Selection}
    (below : ∀ head children, s = .field head children →
      mergeSelections (mergeSelections children (underName head.name added))
          (underName head.name added) =
        mergeSelections children (underName head.name added)) :
    (s.grownBy added).grownBy added = s.grownBy added := by
  cases s with
  | field head children =>
    by_cases hleaf : children = []
    · simp [grownBy, hleaf]
    · simp [grownBy, hleaf, mergeSelections_ne_nil, below head children rfl]
  | spread fragment directives => rfl
  | inline condition directives children => rfl

/-- Merging an extension a second time changes nothing, whatever the base, if the extension has no
inline fragment and nothing comes twice in it, at any depth. -/
theorem mergeSelections_again {base added : List Selection} (once : OnceThroughout added)
    (bare : NoInlines added) :
    mergeSelections (mergeSelections base added) added = mergeSelections base added := by
  induction base, added using mergeSelections_induction with
  | nil => rfl
  | first s added _ => rw [mergeSelections_nil_of_once once.1, mergeSelections_self _ once bare]
  | cons s base added below ih =>
    have hgrown : (s.grownBy added).grownBy added = s.grownBy added :=
      Selection.grownBy_again fun head children hs =>
        below head children hs (once.below head.name) (bare.below head.name)
    have hsub : (added.filter fun t => !s.takes t).Sublist added := List.filter_sublist
    have hrest := ih (once.of_sublist hsub) (bare.of_subset hsub.subset)
    simp only [mergeSelections_cons, Selection.takes_grownBy, hgrown, hrest]

/-- A base with doubles and an inline fragment, and a field that is a leaf on one side only. -/
theorem mergeSelections_again_doubled :
    let onT : Selection := .inline (some "T") [] [.leaf "x"]
    let base : List Selection := [.leaf "a", onT, .field ⟨none, "b", [], []⟩ [.leaf "x"],
      .field ⟨none, "b", [], []⟩ [.leaf "y"], .leaf "a", onT]
    let added : List Selection := [.field ⟨none, "c", [], []⟩ [.leaf "x", .spread "F" []],
      .field ⟨none, "b", [], []⟩ [.leaf "y", .spread "F" []],
      .field ⟨none, "a", [], []⟩ [.leaf "x"]]
    let merged : List Selection := [.leaf "a", onT,
      .field ⟨none, "b", [], []⟩ [.leaf "x", .leaf "y", .spread "F" []],
      .field ⟨none, "b", [], []⟩ [.leaf "y"], .leaf "a", onT,
      .field ⟨none, "c", [], []⟩ [.leaf "x", .spread "F" []]]
    OnceThroughout added ∧ NoInlines added ∧ mergeSelections base added = merged ∧
      mergeSelections merged added = merged := by
  intro onT base added merged
  have once : OnceThroughout added := by decide
  have bare : NoInlines added := by decide
  have hmerged : mergeSelections base added = merged := rfl
  have hagain : mergeSelections (mergeSelections base added) added = mergeSelections base added :=
    mergeSelections_again once bare
  rw [hmerged] at hagain
  exact ⟨once, bare, hmerged, hagain⟩

end QueryShaping
