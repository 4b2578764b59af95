import QueryShaping.Proofs.Merging

namespace QueryShaping

/-- What is selected under a path of field names, by all the fields the path leads to. -/
def under : List Name → List Selection → List Selection
  | [], set => set
  | name :: path, set => under path (underName name set)

theorem mem_fieldNames_iff {name : Name} {set : List Selection} :
    name ∈ fieldNames set ↔ ∃ head children, .field head children ∈ set ∧ head.name = name := by
  simp only [fieldNames, List.mem_filterMap, Selection.fieldName?_eq_some_iff]
  constructor
  · intro h
    obtain ⟨_, member, head, children, rfl, hname⟩ := h
    exact ⟨head, children, member, hname⟩
  · intro h
    obtain ⟨head, children, member, hname⟩ := h
    exact ⟨_, member, head, children, rfl, hname⟩

theorem mem_underName_iff {name : Name} {s : Selection} {set : List Selection} :
    s ∈ underName name set ↔
      ∃ head children, .field head children ∈ set ∧ head.name = name ∧ s ∈ children := by
  simp only [underName, List.mem_flatMap, List.mem_filter]
  constructor
  · intro h
    obtain ⟨t, ⟨member, hname⟩, hs⟩ := h
    obtain ⟨head, children, rfl, hsame⟩ :=
      Selection.fieldName?_eq_some_iff.mp (beq_iff_eq.mp hname)
    exact ⟨head, children, member, hsame, hs⟩
  · intro h
    obtain ⟨head, children, member, hsame, hs⟩ := h
    exact ⟨_, ⟨member, by simp [Selection.isFieldNamed, Selection.fieldName?, hsame]⟩, hs⟩

theorem underName_subset {set more : List Selection} (name : Name) (h : set ⊆ more) :
    underName name set ⊆ underName name more := by
  intro s hs
  obtain ⟨head, children, member, hname, hbelow⟩ := mem_underName_iff.mp hs
  exact mem_underName_iff.mpr ⟨head, children, h member, hname, hbelow⟩

theorem under_subset {set more : List Selection} (path : List Name) (h : set ⊆ more) :
    under path set ⊆ under path more := by
  induction path generalizing set more with
  | nil => exact h
  | cons name path ih => exact ih (underName_subset name h)

theorem under_append (path : List Name) (set more : List Selection) :
    under path (set ++ more) = under path set ++ under path more := by
  induction path generalizing set more with
  | nil => rfl
  | cons name path ih => rw [under, underName_append, ih, under, under]

theorem under_nil (path : List Name) : under path [] = [] := by
  induction path with
  | nil => rfl
  | cons name path ih => exact ih

/-- A path of field names is selected, each field directly below the one before it. -/
inductive HasPath : List Selection → List Name → Prop where
  | last {set : List Selection} {head : FieldHead} {children : List Selection}
      (member : .field head children ∈ set) : HasPath set [head.name]
  | field {set : List Selection} {head : FieldHead} {children : List Selection} {path : List Name}
      (member : .field head children ∈ set) (inner : HasPath children path) :
      HasPath set (head.name :: path)

theorem HasPath.of_underName {set : List Selection} {name : Name} {path : List Name}
    (h : HasPath (underName name set) path) : HasPath set (name :: path) := by
  cases h with
  | last member =>
    obtain ⟨head, children, hmem, rfl, hs⟩ := mem_underName_iff.mp member
    exact .field hmem (.last hs)
  | field member inner =>
    obtain ⟨head, children, hmem, rfl, hs⟩ := mem_underName_iff.mp member
    exact .field hmem (.field hs inner)

theorem hasPath_iff {set : List Selection} {path : List Name} :
    HasPath set path ↔
      ∃ above name, path = above ++ [name] ∧ name ∈ fieldNames (under above set) := by
  constructor
  · intro h
    induction h with
    | last member => exact ⟨[], _, rfl, mem_fieldNames_iff.mpr ⟨_, _, member, rfl⟩⟩
    | @field set head children path member inner ih =>
      obtain ⟨above, name, rfl, hname⟩ := ih
      have hbelow : children ⊆ underName head.name set :=
        fun s hs => mem_underName_iff.mpr ⟨head, children, member, rfl, hs⟩
      refine ⟨head.name :: above, name, rfl, ?_⟩
      obtain ⟨own, inner, hmem, hsame⟩ := mem_fieldNames_iff.mp hname
      exact mem_fieldNames_iff.mpr ⟨own, inner, under_subset above hbelow hmem, hsame⟩
  · intro h
    obtain ⟨above, name, rfl, hname⟩ := h
    induction above generalizing set with
    | nil =>
      obtain ⟨head, children, member, rfl⟩ := mem_fieldNames_iff.mp hname
      exact .last member
    | cons first above ih => exact (ih hname).of_underName

/-- Every field outside inline fragments selects something exactly if its path is composite. -/
def FollowsShape (composite : List Name → Bool) (set : List Selection) : Prop :=
  ∀ above head children, .field head children ∈ under above set →
    (composite (above ++ [head.name]) = true ↔ children ≠ [])

/-- All fields of some selection sets outside inline fragments follow one assignment of leaf or
composite to every path. -/
def ShapesAgree (sets : List (List Selection)) : Prop :=
  ∃ composite, ∀ set ∈ sets, FollowsShape composite set

section

variable {composite : List Name → Bool} {set more : List Selection}

theorem FollowsShape.of_subset (h : FollowsShape composite more) (subset : set ⊆ more) :
    FollowsShape composite set := by
  intro above head children member
  exact h above head children (under_subset above subset member)

theorem FollowsShape.below (h : FollowsShape composite set) (name : Name) :
    FollowsShape (fun path => composite (name :: path)) (underName name set) := by
  intro above head children member
  exact h (name :: above) head children member

theorem FollowsShape.underName_eq_nil (h : FollowsShape composite set) {name : Name}
    (leaf : composite [name] = false) : underName name set = [] := by
  rw [List.eq_nil_iff_forall_not_mem]
  intro s hs
  obtain ⟨head, children, member, rfl, hbelow⟩ := mem_underName_iff.mp hs
  have hfilled := (h [] head children member).mpr (List.ne_nil_of_mem hbelow)
  rw [List.nil_append, leaf] at hfilled
  cases hfilled

theorem FollowsShape.children_ne_nil (h : FollowsShape composite set) {s : Selection} {name : Name}
    (member : s ∈ set) (hname : s.isFieldNamed name = true) (filled : composite [name] = true) :
    s.children ≠ [] := by
  obtain ⟨head, children, rfl, rfl⟩ :=
    Selection.fieldName?_eq_some_iff.mp (beq_iff_eq.mp hname)
  exact (h [] head children member).mp filled

theorem followsShape_append_iff :
    FollowsShape composite (set ++ more) ↔
      FollowsShape composite set ∧ FollowsShape composite more := by
  constructor
  · intro h
    exact ⟨h.of_subset (List.subset_append_left set more),
      h.of_subset (List.subset_append_right set more)⟩
  · intro h above head children member
    rw [under_append, List.mem_append] at member
    rcases member with member | member
    · exact h.1 above head children member
    · exact h.2 above head children member

theorem followsShape_cons_iff {s : Selection} {rest : List Selection} :
    FollowsShape composite (s :: rest) ↔ FollowsShape composite [s] ∧ FollowsShape composite rest := by
  rw [← followsShape_append_iff, List.singleton_append]

theorem followsShape_of_no_field {s : Selection} (h : s.fieldName? = none) :
    FollowsShape composite [s] := by
  intro above head children member
  cases above with
  | nil =>
    cases List.mem_singleton.mp member
    cases h
  | cons name above =>
    have hnone : underName name [s] = [] := by
      simp [underName, Selection.isFieldNamed, h]
    rw [under, hnone, under_nil] at member
    cases member

theorem followsShape_field_iff {head : FieldHead} {children : List Selection} :
    FollowsShape composite [.field head children] ↔
      (composite [head.name] = true ↔ children ≠ []) ∧
        FollowsShape (fun path => composite (head.name :: path)) children := by
  constructor
  · intro h
    refine ⟨h [] head children (List.mem_singleton_self _), (h.below head.name).of_subset ?_⟩
    intro s hs
    exact mem_underName_iff.mpr ⟨head, children, List.mem_singleton_self _, rfl, hs⟩
  · intro h above own inner member
    cases above with
    | nil =>
      cases List.mem_singleton.mp member
      exact h.1
    | cons name above =>
      by_cases hname : head.name = name
      · subst hname
        have hunder : underName head.name [.field head children] = children := by
          simp [underName, Selection.isFieldNamed, Selection.fieldName?, Selection.children]
        rw [under, hunder] at member
        exact h.2 above own inner member
      · have hnone : underName name [.field head children] = [] := by
          simp [underName, Selection.isFieldNamed, Selection.fieldName?, hname]
        rw [under, hnone, under_nil] at member
        cases member

@[simp]
theorem followsShape_nil : FollowsShape composite [] := by
  intro above head children member
  rw [under_nil] at member
  cases member

@[simp]
theorem followsShape_field_cons_iff {head : FieldHead} {children rest : List Selection} :
    FollowsShape composite (.field head children :: rest) ↔
      ((composite [head.name] = true ↔ children ≠ []) ∧
        FollowsShape (fun path => composite (head.name :: path)) children) ∧
      FollowsShape composite rest := by
  rw [← followsShape_field_iff]
  exact followsShape_cons_iff

@[simp]
theorem followsShape_spread_cons_iff {fragment : Name} {directives : List Directive}
    {rest : List Selection} :
    FollowsShape composite (.spread fragment directives :: rest) ↔ FollowsShape composite rest := by
  have hone : FollowsShape composite [.spread fragment directives] := followsShape_of_no_field rfl
  exact followsShape_cons_iff.trans (and_iff_right hone)

@[simp]
theorem followsShape_inline_cons_iff {condition : Option Name} {directives : List Directive}
    {children rest : List Selection} :
    FollowsShape composite (.inline condition directives children :: rest) ↔
      FollowsShape composite rest := by
  have hone : FollowsShape composite [.inline condition directives children] :=
    followsShape_of_no_field rfl
  exact followsShape_cons_iff.trans (and_iff_right hone)

end

end QueryShaping
