import QueryShaping.Proofs.FieldPaths

namespace QueryShaping

section

variable {name : Name} {base added : List Selection}

theorem Selection.takes_of_isFieldNamed {s t : Selection} (hs : s.isFieldNamed name = true)
    (ht : t.isFieldNamed name = true) : s.takes t = true :=
  takes_iff.mpr ⟨_, isFieldNamed_iff.mp hs, isFieldNamed_iff.mp ht⟩

theorem Selection.children_grownBy {s : Selection} (hname : s.isFieldNamed name = true)
    (leaf : s.children = [] → underName name added = []) :
    (s.grownBy added).children = mergeSelections s.children (underName name added) := by
  obtain ⟨head, children, rfl, rfl⟩ := fieldName?_eq_some_iff.mp (beq_iff_eq.mp hname)
  by_cases hnil : children = []
  · subst hnil
    simp [grownBy, Selection.children, leaf rfl, mergeSelections]
  · simp [grownBy, Selection.children, hnil]

theorem filter_isFieldNamed_mergeSelections (name : Name) (base added : List Selection) :
    (mergeSelections base added).filter (·.isFieldNamed name) =
      mergeSelections (base.filter (·.isFieldNamed name)) (added.filter (·.isFieldNamed name)) := by
  have hkey : Selection.isFieldNamed name = fun s => s.key? == some (.field name) := by
    funext s
    rw [Bool.eq_iff_iff, Selection.isFieldNamed_iff, beq_iff_eq]
  rw [hkey]
  exact filter_mergeSelections (· == some (.field name)) base added

theorem mergeSelections_of_taken {s : Selection} {rest : List Selection}
    (taken : ∀ t ∈ added, s.takes t = true) :
    mergeSelections (s :: rest) added = s.grownBy added :: rest := by
  have hleft : (added.filter fun t => !s.takes t) = [] := by simpa using taken
  rw [mergeSelections_cons, hleft, mergeSelections_nil_right]

theorem underName_of_filter {s : Selection} {set rest : List Selection}
    (h : set.filter (·.isFieldNamed name) = s :: rest) :
    underName name set = s.children ++ underName name rest := by
  have hs : s.isFieldNamed name = true := (List.mem_filter.mp (h ▸ List.mem_cons_self)).2
  have hnamed : underName name (s :: rest) = underName name set := by
    rw [← h, underName, underName, List.filter_filter]
    simp only [Bool.and_self]
  rw [← hnamed, underName_cons, if_pos hs]

theorem underName_mergeSelections_of_base {s : Selection} {rest : List Selection}
    (hbase : base.filter (·.isFieldNamed name) = s :: rest) :
    underName name (mergeSelections base added) =
      (s.grownBy added).children ++ underName name rest := by
  have hs : s.isFieldNamed name = true := (List.mem_filter.mp (hbase ▸ List.mem_cons_self)).2
  have htaken : ∀ t ∈ added.filter (·.isFieldNamed name), s.takes t = true :=
    fun t ht => Selection.takes_of_isFieldNamed hs (List.mem_filter.mp ht).2
  apply underName_of_filter
  rw [filter_isFieldNamed_mergeSelections, hbase, mergeSelections_of_taken htaken,
    Selection.grownBy_filter]
  intro t _ htakes
  obtain ⟨key, hkey, ht⟩ := Selection.takes_iff.mp htakes
  rw [Selection.isFieldNamed_iff, ht, ← hkey, ← Selection.isFieldNamed_iff]
  exact hs

theorem underName_mergeSelections_of_added {s : Selection} {rest : List Selection}
    (hbase : base.filter (·.isFieldNamed name) = [])
    (hadded : added.filter (·.isFieldNamed name) = s :: rest) :
    underName name (mergeSelections base added) = (s.grownBy rest).children := by
  have hall : ∀ t ∈ s :: rest, t.isFieldNamed name = true :=
    fun t ht => (List.mem_filter.mp (hadded ▸ ht)).2
  have htaken : ∀ t ∈ rest, s.takes t = true := fun t ht =>
    Selection.takes_of_isFieldNamed (hall s List.mem_cons_self) (hall t (List.mem_cons_of_mem s ht))
  rw [underName, filter_isFieldNamed_mergeSelections, hbase, hadded, mergeSelections_nil_cons,
    mergeSelections_of_taken htaken, List.flatMap_singleton]

theorem underName_mergeSelections_of_none (hbase : base.filter (·.isFieldNamed name) = [])
    (hadded : added.filter (·.isFieldNamed name) = []) :
    underName name (mergeSelections base added) = [] := by
  rw [underName, filter_isFieldNamed_mergeSelections, hbase, hadded, mergeSelections_nil_right,
    List.flatMap_nil]

end

def Selection.isInline : Selection → Bool
  | .inline _ _ _ => true
  | _ => false

theorem Selection.isInline_eq (s : Selection) : s.isInline = s.key?.isNone := by
  cases s <;> rfl

def inlines (set : List Selection) : List Selection :=
  set.filter Selection.isInline

theorem inlines_append (set more : List Selection) :
    inlines (set ++ more) = inlines set ++ inlines more :=
  List.filter_append set more

theorem inlines_mergeSelections (base added : List Selection) :
    inlines (mergeSelections base added) = inlines base ++ inlines added := by
  have hkeys : ∀ set, mergeKeys (inlines set) = [] := by
    intro set
    rw [mergeKeys, List.filterMap_eq_nil_iff]
    intro s hs
    simpa [Selection.isInline_eq] using (List.mem_filter.mp hs).2
  have hmerged : inlines (mergeSelections base added) =
      mergeSelections (inlines base) (inlines added) := by
    simp only [inlines, funext Selection.isInline_eq, filter_mergeSelections Option.isNone]
  rw [hmerged]
  apply mergeSelections_eq_append
  rw [mergeKeys_append, hkeys, hkeys]
  exact List.nodup_nil

/-- Two selection sets hold the same fields and spreads by their keys, and the same inline fragments
as often. -/
structure SameContents (set set' : List Selection) : Prop where
  keys : ∀ key, key ∈ mergeKeys set ↔ key ∈ mergeKeys set'
  inlines : (inlines set).Perm (inlines set')

namespace SameContents

variable {set set' more more' : List Selection}

theorem refl (set : List Selection) : SameContents set set :=
  ⟨fun _ => Iff.rfl, .refl _⟩

theorem trans (h : SameContents set set') (h' : SameContents set' more) : SameContents set more :=
  ⟨fun key => (h.keys key).trans (h'.keys key), h.inlines.trans h'.inlines⟩

theorem append (h : SameContents set set') (h' : SameContents more more') :
    SameContents (set ++ more) (set' ++ more') where
  keys := by
    intro key
    rw [mergeKeys_append, mergeKeys_append, List.mem_append, List.mem_append, h.keys, h'.keys]
  inlines := by
    rw [inlines_append, inlines_append]
    exact h.inlines.append h'.inlines

theorem append_comm (set more : List Selection) : SameContents (set ++ more) (more ++ set) where
  keys := by
    intro key
    rw [mergeKeys_append, mergeKeys_append, List.mem_append, List.mem_append, or_comm]
  inlines := by
    rw [inlines_append, inlines_append]
    exact List.perm_append_comm

end SameContents

theorem sameContents_mergeSelections (base added : List Selection) :
    SameContents (mergeSelections base added) (base ++ added) where
  keys := by
    intro key
    rw [mem_mergeKeys_mergeSelections_iff, mergeKeys_append, List.mem_append]
  inlines := by rw [inlines_mergeSelections, inlines_append]

section

variable {composite : List Name → Bool} {base added : List Selection}

theorem exists_underName_mergeSelections (shape : FollowsShape composite (base ++ added))
    (name : Name) :
    ∃ old rest more, underName name (base ++ added) = old ++ rest ++ more ∧
      underName name (mergeSelections base added) = mergeSelections old more ++ rest := by
  have hleaf : ∀ s ∈ base ++ added, s.isFieldNamed name = true → s.children = [] →
      underName name (base ++ added) = [] := by
    intro s member hname hnil
    apply shape.underName_eq_nil
    rw [← Bool.not_eq_true]
    intro hfilled
    exact shape.children_ne_nil member hname hfilled hnil
  rw [underName_append] at hleaf ⊢
  cases hbase : base.filter (·.isFieldNamed name) with
  | cons s rest =>
    obtain ⟨member, hname⟩ := List.mem_filter.mp (hbase ▸ List.mem_cons_self : s ∈ base.filter _)
    refine ⟨s.children, underName name rest, underName name added, ?_, ?_⟩
    · rw [underName_of_filter hbase]
    · rw [underName_mergeSelections_of_base hbase, Selection.children_grownBy hname]
      intro hnil
      exact (List.append_eq_nil_iff.mp (hleaf s (List.mem_append_left _ member) hname hnil)).2
  | nil =>
    cases hadded : added.filter (·.isFieldNamed name) with
    | cons s rest =>
      obtain ⟨member, hname⟩ :=
        List.mem_filter.mp (hadded ▸ List.mem_cons_self : s ∈ added.filter _)
      have hunder := underName_of_filter hadded
      refine ⟨s.children, [], underName name rest, ?_, ?_⟩
      · rw [hunder, underName, hbase, List.flatMap_nil, List.nil_append, List.append_nil]
      · rw [underName_mergeSelections_of_added hbase hadded, List.append_nil]
        apply Selection.children_grownBy hname
        intro hnil
        have hboth := hleaf s (List.mem_append_right _ member) hname hnil
        rw [hunder] at hboth
        exact (List.append_eq_nil_iff.mp (List.append_eq_nil_iff.mp hboth).2).2
    | nil =>
      refine ⟨[], [], [], ?_, ?_⟩
      · simp [underName, hbase, hadded]
      · rw [underName_mergeSelections_of_none hbase hadded]
        rfl

/-- Where shapes agree, a merge holds under every path what both sides hold. -/
theorem sameContents_under_mergeSelections (shape : FollowsShape composite (base ++ added))
    (path : List Name) :
    SameContents (under path (mergeSelections base added)) (under path (base ++ added)) := by
  induction path generalizing composite base added with
  | nil => exact sameContents_mergeSelections base added
  | cons name path ih =>
    obtain ⟨old, rest, more, hboth, hmerged⟩ := exists_underName_mergeSelections shape name
    have hshape := shape.below name
    rw [hboth, List.append_assoc] at hshape
    have hparts : FollowsShape (fun path => composite (name :: path)) (old ++ more) := by
      rw [followsShape_append_iff, followsShape_append_iff] at hshape
      exact followsShape_append_iff.mpr ⟨hshape.1, hshape.2.2⟩
    -- The third part stands behind the merge of the other two, where both sides have it between.
    rw [under, under, hboth, hmerged, under_append]
    refine ((ih hparts).append (.refl (under path rest))).trans ?_
    rw [under_append, under_append, under_append, List.append_assoc, List.append_assoc]
    exact (SameContents.refl _).append (.append_comm _ _)

end

/-- A merge is the union of both sides. Where these agree on which paths lead to leaves, it selects
the paths of field names that either selects, it spreads under each the fragments that either does,
and holds under each the inline fragments of both, unchanged and as often. -/
theorem mergeSelections_unites {base added : List Selection} (agree : ShapesAgree [base, added])
    (path : List Name) :
    (HasPath (mergeSelections base added) path ↔ HasPath base path ∨ HasPath added path) ∧
      (∀ fragment, fragment ∈ spreadNames (under path (mergeSelections base added)) ↔
        fragment ∈ spreadNames (under path base) ∨ fragment ∈ spreadNames (under path added)) ∧
      (inlines (under path (mergeSelections base added))).Perm
        (inlines (under path base) ++ inlines (under path added)) := by
  obtain ⟨composite, hshapes⟩ := agree
  have hshape : FollowsShape composite (base ++ added) := by
    rw [followsShape_append_iff]
    exact ⟨hshapes base (by simp), hshapes added (by simp)⟩
  have hsame : ∀ path, SameContents (under path (mergeSelections base added))
      (under path base ++ under path added) := by
    intro path
    rw [← under_append]
    exact sameContents_under_mergeSelections hshape path
  have hkeys : ∀ path key, key ∈ mergeKeys (under path (mergeSelections base added)) ↔
      key ∈ mergeKeys (under path base) ∨ key ∈ mergeKeys (under path added) := by
    intro path key
    rw [(hsame path).keys, mergeKeys_append, List.mem_append]
  refine ⟨?_, ?_, ?_⟩
  · simp only [hasPath_iff, ← field_mem_mergeKeys_iff, hkeys, and_or_left, exists_or]
  · intro fragment
    simp only [← spread_mem_mergeKeys_iff, hkeys]
  · have hinlines := (hsame path).inlines
    rwa [inlines_append] at hinlines

/-- A field that comes twice in the base and one that comes twice in the extension: what is added
under the first goes to its first place, what the second selects comes together, and the two inline
fragments stand side by side. -/
theorem mergeSelections_unites_doubled :
    let onT : Selection := .inline (some "T") [] [.leaf "y"]
    let base : List Selection := [.field ⟨none, "a", [], []⟩ [.leaf "x", onT],
      .field ⟨some "other", "a", [], []⟩ [.leaf "z"], .spread "F" []]
    let added : List Selection := [.field ⟨none, "a", [], []⟩ [.leaf "y", .spread "G" [], onT],
      .field ⟨none, "b", [], []⟩ [.leaf "u"], .field ⟨none, "b", [], []⟩ [.leaf "v"],
      .spread "F" []]
    let merged := mergeSelections base added
    ShapesAgree [base, added] ∧ HasPath merged ["b", "v"] ∧
      "G" ∈ spreadNames (under ["a"] merged) ∧ (inlines (under ["a"] merged)).Perm [onT, onT] := by
  intro onT base added merged
  have agree : ShapesAgree [base, added] :=
    ⟨fun path => path == ["a"] || path == ["b"], by simp [base, added, onT, Selection.leaf]⟩
  have hpath : HasPath added ["b", "v"] := hasPath_iff.mpr ⟨["b"], "v", rfl, by decide⟩
  have hspread : "G" ∈ spreadNames (under ["a"] added) := by decide
  obtain ⟨_, hspreads, hinlines⟩ := mergeSelections_unites agree ["a"]
  exact ⟨agree, (mergeSelections_unites agree ["b", "v"]).1.mpr (.inr hpath),
    (hspreads "G").mpr (.inr hspread), hinlines⟩

end QueryShaping
