import QueryShaping.Proofs.MergeContents
import QueryShaping.Proofs.Remains

namespace QueryShaping

theorem namesOnce_iff {set : List Selection} :
    NamesOnce set ↔ (fieldNames set).Nodup ∧ (spreadNames set).Nodup :=
  ⟨fun h => ⟨h.fields, h.spreads⟩, fun h => ⟨h.1, h.2⟩⟩

theorem nodup_mergeKeys_iff {set : List Selection} : (mergeKeys set).Nodup ↔ NamesOnce set := by
  induction set with
  | nil => simp [namesOnce_iff, mergeKeys, fieldNames, spreadNames]
  | cons s rest ih =>
    rw [namesOnce_iff] at ih ⊢
    cases s with
    | field head children =>
      have hkeys : mergeKeys (.field head children :: rest) = .field head.name :: mergeKeys rest :=
        rfl
      have hfields : fieldNames (.field head children :: rest) = head.name :: fieldNames rest := rfl
      have hspreads : spreadNames (.field head children :: rest) = spreadNames rest := rfl
      simp only [hkeys, hfields, hspreads, List.nodup_cons, field_mem_mergeKeys_iff, ih, and_assoc]
    | spread fragment directives =>
      have hkeys : mergeKeys (.spread fragment directives :: rest) =
          .spread fragment :: mergeKeys rest := rfl
      have hfields : fieldNames (.spread fragment directives :: rest) = fieldNames rest := rfl
      have hspreads : spreadNames (.spread fragment directives :: rest) =
          fragment :: spreadNames rest := rfl
      simp only [hkeys, hfields, hspreads, List.nodup_cons, spread_mem_mergeKeys_iff, ih,
        and_left_comm]
    | inline condition directives children => exact ih

theorem mergeSelections_nil_of_once {set : List Selection} (once : NamesOnce set) :
    mergeSelections [] set = set :=
  mergeSelections_eq_append (nodup_mergeKeys_iff.mpr once)

theorem NamesOnce.mergeSelections {base : List Selection} (once : NamesOnce base)
    (added : List Selection) : NamesOnce (mergeSelections base added) :=
  nodup_mergeKeys_iff.mp (nodup_mergeKeys_mergeSelections (nodup_mergeKeys_iff.mpr once) added)

theorem NamesOnce.filter_isFieldNamed {set : List Selection} (once : NamesOnce set) (name : Name) :
    set.filter (·.isFieldNamed name) = [] ∨
      ∃ s ∈ set, s.isFieldNamed name = true ∧ set.filter (·.isFieldNamed name) = [s] := by
  cases hfilter : set.filter (·.isFieldNamed name) with
  | nil => exact .inl rfl
  | cons s rest =>
    have hsublist : (s :: rest).Sublist set := hfilter ▸ List.filter_sublist
    have honce := (nodup_mergeKeys_iff.mpr once).sublist (hsublist.filterMap Selection.key?)
    have hnamed : ∀ t ∈ s :: rest, t.isFieldNamed name = true :=
      fun t ht => (List.mem_filter.mp (hfilter ▸ ht)).2
    have hkey : ∀ t ∈ s :: rest, t.key? = some (.field name) :=
      fun t ht => Selection.isFieldNamed_iff.mp (hnamed t ht)
    refine .inr ⟨s, hsublist.subset List.mem_cons_self, hnamed s List.mem_cons_self, ?_⟩
    cases rest with
    | nil => rfl
    | cons t rest => simp [hkey s (by simp), hkey t (by simp)] at honce

theorem OnceThroughout.of_sublist {set more : List Selection} (h : OnceThroughout more)
    (sublist : set.Sublist more) : OnceThroughout set :=
  h.of_remainAmong ⟨set, sublist.subperm, Selection.RemainsOf.refl.refl_all set⟩

theorem OnceThroughout.of_mem {set : List Selection} {s : Selection} (h : OnceThroughout set)
    (member : s ∈ set) : OnceThroughout s.children :=
  (onceThroughout_iff.mp h).2 s member

theorem OnceThroughout.below {set : List Selection} (h : OnceThroughout set) (name : Name) :
    OnceThroughout (underName name set) := by
  rcases h.1.filter_isFieldNamed name with hnone | ⟨s, member, _, hone⟩
  · rw [underName, hnone]
    exact onceThroughout_nil
  · rw [underName, hone, List.flatMap_singleton]
    exact h.of_mem member

theorem underName_mergeSelections_of_once {first second : List Selection} {name : Name}
    (once : OnceThroughout first) (once' : OnceThroughout second)
    (filled : ∀ s ∈ first, s.isFieldNamed name = true → s.children ≠ []) :
    underName name (mergeSelections first second) =
      mergeSelections (underName name first) (underName name second) := by
  rcases once.1.filter_isFieldNamed name with hfirst | ⟨s, member, hname, hfirst⟩
  · have hunder : underName name first = [] := by rw [underName, hfirst, List.flatMap_nil]
    rw [hunder]
    rcases once'.1.filter_isFieldNamed name with hsecond | ⟨s, member, _, hsecond⟩
    · have hneither : underName name second = [] := by rw [underName, hsecond, List.flatMap_nil]
      rw [underName_mergeSelections_of_none hfirst hsecond, hneither, mergeSelections_nil_right]
    · have honly : underName name second = s.children := by
        rw [underName, hsecond, List.flatMap_singleton]
      rw [underName_mergeSelections_of_added hfirst hsecond, Selection.grownBy_nil, honly,
        mergeSelections_nil_of_once (once'.of_mem member).1]
  · have hnone : underName name [] = [] := rfl
    rw [underName_mergeSelections_of_base hfirst, underName_of_filter hfirst, hnone,
      List.append_nil, List.append_nil, Selection.children_grownBy hname]
    intro hleaf
    exact absurd hleaf (filled s member hname)

/-- A selection grows by one extension after another as by their merge. -/
theorem Selection.grownBy_mergeSelections {s : Selection} {first second : List Selection}
    {composite : List Name → Bool} (once : OnceThroughout first) (once' : OnceThroughout second)
    (own : FollowsShape composite [s]) (shape : FollowsShape composite first)
    (inner : ∀ head children, s = .field head children → children ≠ [] →
      mergeSelections (mergeSelections children (underName head.name first))
          (underName head.name second) =
        mergeSelections children
          (mergeSelections (underName head.name first) (underName head.name second))) :
    (s.grownBy first).grownBy second = s.grownBy (mergeSelections first second) := by
  cases s with
  | field head children =>
    by_cases hleaf : children = []
    · simp [grownBy, hleaf]
    · have hcomposite : composite [head.name] = true :=
        (own [] head children (List.mem_singleton_self _)).mpr hleaf
      have hunder : underName head.name (mergeSelections first second) =
          mergeSelections (underName head.name first) (underName head.name second) :=
        underName_mergeSelections_of_once once once' fun t member hname =>
          shape.children_ne_nil member hname hcomposite
      simp [grownBy, hleaf, mergeSelections_ne_nil, hunder, inner head children rfl hleaf]
  | spread fragment directives => rfl
  | inline condition directives children => rfl

/-- Two extensions merged one after the other give what their merge gives at once, if nothing comes
twice in either and all fields outside inline fragments agree on which paths lead to leaves. -/
theorem mergeSelections_in_sequence {base first second : List Selection}
    (once : OnceThroughout first) (once' : OnceThroughout second)
    (agree : ShapesAgree [base, first, second]) :
    mergeSelections (mergeSelections base first) second =
      mergeSelections base (mergeSelections first second) := by
  obtain ⟨composite, hshapes⟩ := agree
  have hbase : FollowsShape composite base := hshapes base (by simp)
  have hfirst : FollowsShape composite first := hshapes first (by simp)
  have hsecond : FollowsShape composite second := hshapes second (by simp)
  clear hshapes
  -- One level along the equations of the first merge; the second and its shape follow it down.
  induction base, first using mergeSelections_induction generalizing composite second with
  | nil => rw [mergeSelections_nil_right, mergeSelections_nil_of_once (once.1.mergeSelections _)]
  | first s added _ =>
    rw [mergeSelections_nil_of_once once.1,
      mergeSelections_nil_of_once (once.1.mergeSelections second)]
  | cons s base added below ih =>
    have hparts : FollowsShape composite [s] ∧ FollowsShape composite base :=
      followsShape_cons_iff.mp hbase
    have hleft : ∀ set : List Selection, (set.filter fun t => !s.takes t).Sublist set :=
      fun _ => List.filter_sublist
    -- What the first selection takes in is chosen by key, so what it leaves merges by itself.
    have hleaves : (mergeSelections added second).filter (fun t => !s.takes t) =
        mergeSelections (added.filter fun t => !s.takes t)
          (second.filter fun t => !s.takes t) :=
      filter_mergeSelections (fun key => !(key.isSome && s.key? == key)) added second
    have hgrown := s.grownBy_mergeSelections once once' hparts.1 hfirst
      fun head children hs _ => by
        subst hs
        have hunder := (followsShape_field_iff.mp hparts.1).2
        exact below head children rfl (once.below _) (once'.below _) _ hunder
          (hfirst.below _) (hsecond.below _)
    have hrest := ih (once.of_sublist (hleft added)) (once'.of_sublist (hleft second)) _ hparts.2
      (hfirst.of_subset (hleft added).subset) (hsecond.of_subset (hleft second).subset)
    simp only [mergeSelections_cons, Selection.takes_grownBy, hgrown, hleaves, hrest]

/-- Fields, spreads and an inline fragment that are new to one, two or all of the three, at two
depths. -/
theorem mergeSelections_in_sequence_nested :
    let onT : Selection := .inline (some "T") [] [.leaf "w"]
    let base : List Selection := [.field ⟨none, "a", [], []⟩
      [.leaf "x", .field ⟨none, "p", [], []⟩ [.leaf "q"]]]
    let first : List Selection := [.field ⟨none, "b", [], []⟩ [.leaf "c"],
      .field ⟨none, "a", [], []⟩ [.field ⟨none, "p", [], []⟩ [.leaf "r"], .spread "F" []]]
    let second : List Selection := [onT, .field ⟨none, "a", [], []⟩
      [.spread "F" [], .leaf "y", .field ⟨none, "p", [], []⟩ [.leaf "r", .leaf "s"]],
      .field ⟨none, "b", [], []⟩ [.leaf "d"]]
    OnceThroughout first ∧ OnceThroughout second ∧ ShapesAgree [base, first, second] ∧
      mergeSelections (mergeSelections base first) second =
        mergeSelections base (mergeSelections first second) ∧
      mergeSelections base (mergeSelections first second) =
        [.field ⟨none, "a", [], []⟩
          [.leaf "x", .field ⟨none, "p", [], []⟩ [.leaf "q", .leaf "r", .leaf "s"], .spread "F" [],
            .leaf "y"],
          .field ⟨none, "b", [], []⟩ [.leaf "c", .leaf "d"], onT] := by
  intro onT base first second
  have once : OnceThroughout first := by decide
  have once' : OnceThroughout second := by decide
  have agree : ShapesAgree [base, first, second] :=
    ⟨fun path => path == ["a"] || path == ["a", "p"] || path == ["b"], by
      simp [base, first, second, onT, Selection.leaf]⟩
  exact ⟨once, once', agree, mergeSelections_in_sequence once once' agree, rfl⟩

end QueryShaping
