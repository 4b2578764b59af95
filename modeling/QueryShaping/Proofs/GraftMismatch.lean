import QueryShaping.Proofs.Grafting

namespace QueryShaping

namespace Operation

/-- No field stands at the top of an operation, or the first that does has a name that no operation
of the base has for its own first one. -/
def IsStray (base : List Operation) (e : Operation) : Prop :=
  (∀ s ∈ e.selections, s.fieldName? = none) ∨
    ∃ root, e.rootName? = some root ∧ ∀ op ∈ base, op.rootName? ≠ some root

theorem rootName?_eq_none_iff {op : Operation} :
    op.rootName? = none ↔ ∀ s ∈ op.selections, s.fieldName? = none := by
  simp [rootName?, fieldNames]

theorem isStray_congr {base base' : List Operation} {e : Operation}
    (h : base.map (·.rootName?) = base'.map (·.rootName?)) :
    e.IsStray base ↔ e.IsStray base' := by
  have hmap : ∀ (l : List Operation) (root : Name),
      (∀ op ∈ l, op.rootName? ≠ some root) ↔ some root ∉ l.map (·.rootName?) := by
    intro l root
    simp
  simp only [IsStray, hmap, h]

end Operation

theorem targetOf_eq_none_iff {ops : List Operation} {root : Name} :
    targetOf ops root = none ↔ ∀ op ∈ ops, op.rootName? ≠ some root := by
  simp [targetOf, List.findIdx?_eq_none_iff]

theorem merge_eq_none_iff_isStray {ops : List Operation} {e : Operation} :
    (e.rootName?.bind fun root => mergeIntoRoot? root e.selections ops) = none ↔
      e.IsStray ops := by
  rw [Operation.IsStray, ← Operation.rootName?_eq_none_iff]
  cases e.rootName? with
  | none => simp
  | some root => simp [mergeIntoRoot?_eq, targetOf_eq_none_iff]

/-- An operation of an extension is stray, and none before it is. -/
def IsFirstStray (base es : List Operation) (e : Operation) : Prop :=
  ∃ before after, es = before ++ e :: after ∧ (∀ o ∈ before, ¬ o.IsStray base) ∧ e.IsStray base

theorem not_isFirstStray_nil {base : List Operation} {e : Operation} :
    ¬ IsFirstStray base [] e := by
  intro h
  obtain ⟨before, after, hnil, _⟩ := h
  simp at hnil

theorem isFirstStray_cons_iff {base rest : List Operation} {first e : Operation} :
    IsFirstStray base (first :: rest) e ↔
      (e = first ∧ first.IsStray base) ∨ (¬ first.IsStray base ∧ IsFirstStray base rest e) := by
  constructor
  · intro h
    obtain ⟨before, after, hsplit, hbefore, hstray⟩ := h
    rcases List.cons_eq_append_iff.mp hsplit with ⟨rfl, hhead⟩ | ⟨before', rfl, hrest⟩
    · cases hhead
      exact .inl ⟨rfl, hstray⟩
    · refine .inr ⟨hbefore first List.mem_cons_self, before', after, hrest, ?_, hstray⟩
      intro o ho
      exact hbefore o (List.mem_cons_of_mem first ho)
  · intro h
    rcases h with ⟨rfl, hstray⟩ | ⟨hfirst, before, after, rfl, hbefore, hstray⟩
    · exact ⟨[], rest, rfl, by simp, hstray⟩
    · refine ⟨first :: before, after, rfl, ?_, hstray⟩
      intro o ho
      rcases List.mem_cons.mp ho with rfl | ho
      · exact hfirst
      · exact hbefore o ho

theorem exists_isFirstStray_iff {base es : List Operation} :
    (∃ e, IsFirstStray base es e) ↔ ∃ e ∈ es, e.IsStray base := by
  induction es with
  | nil => simp [not_isFirstStray_nil]
  | cons first rest ih =>
    simp only [isFirstStray_cons_iff, exists_or, exists_and_left, ih, List.mem_cons]
    by_cases hfirst : first.IsStray base
    · simp [hfirst]
    · simp [hfirst]

/-- A run of merges fails exactly at the first operation that is stray for the operations it starts
from. -/
theorem mergeOperations_eq_error_iff {expected : List Name} {ops es : List Operation}
    {error : GraftError} :
    mergeOperations expected ops es = .error error ↔
      ∃ e, IsFirstStray ops es e ∧ error = .targetMismatch expected e.rootName? := by
  induction es generalizing ops with
  | nil => simp [mergeOperations, not_isFirstStray_nil]
  | cons first rest ih =>
    simp only [isFirstStray_cons_iff]
    rw [mergeOperations]
    split
    · rename_i hnone
      have hstray := merge_eq_none_iff_isStray.mp hnone
      simp [hstray, eq_comm]
    · rename_i merged hmerged
      have hgoes : ¬ first.IsStray ops := by
        rw [← merge_eq_none_iff_isStray, hmerged]
        simp
      obtain ⟨root, _, hmerge⟩ := Option.bind_eq_some_iff.mp hmerged
      have hsame : ∀ e, IsFirstStray merged rest e ↔ IsFirstStray ops rest e := by
        intro e
        simp only [IsFirstStray, Operation.isStray_congr (roots_mergeIntoRoot? hmerge)]
      simp [ih, hsame, hgoes]

theorem GraftError.message_targetMismatch (expected : List Name) (actual : Option Name) :
    (targetMismatch expected actual).message =
      "the extension must extend the '"
        ++ (if expected = [] then "(none)" else String.intercalate "', '" expected)
        ++ "' query, but it selects '" ++ actual.getD "(none)" ++ "' instead" := by
  have hnames : namesText expected =
      if expected = [] then "(none)" else String.intercalate "', '" expected := by
    simp [namesText, noName]
  rw [← hnames]
  rfl

namespace Document

theorem graft_eq_error_iff {base extension : Document} {error : GraftError} :
    base.graft extension = .error error ↔
      ∃ e, IsFirstStray base.operations extension.operations e ∧
        error = .targetMismatch (base.operations.filterMap (·.rootName?)) e.rootName? := by
  rw [← mergeOperations_eq_error_iff, graft, ← rootNames]
  cases mergeOperations (rootNames base.operations) base.operations extension.operations with
  | error e => simp
  | ok ops => simp

/-- A graft fails exactly if an operation of the extension is stray for those of the base, whatever
is merged on the way. The first that is, is told: by its root name, or as having none, beside the
root names of the operations of the base that have one, in order, or the word for none of them. -/
theorem graft_fails_at_first_stray (base extension : Document) :
    ((∃ error, base.graft extension = .error error) ↔
        ∃ e ∈ extension.operations, e.IsStray base.operations) ∧
      ∀ error, base.graft extension = .error error ↔
        ∃ e, IsFirstStray base.operations extension.operations e ∧
          error = .targetMismatch (base.operations.filterMap (·.rootName?)) e.rootName? ∧
          error.message = "the extension must extend the '"
            ++ (if base.operations.filterMap (·.rootName?) = [] then "(none)"
              else String.intercalate "', '" (base.operations.filterMap (·.rootName?)))
            ++ "' query, but it selects '" ++ e.rootName?.getD "(none)" ++ "' instead" := by
  constructor
  · rw [← exists_isFirstStray_iff]
    constructor
    · intro h
      obtain ⟨error, herror⟩ := h
      obtain ⟨e, hfirst, _⟩ := graft_eq_error_iff.mp herror
      exact ⟨e, hfirst⟩
    · intro h
      obtain ⟨e, hfirst⟩ := h
      exact ⟨_, graft_eq_error_iff.mpr ⟨e, hfirst, rfl⟩⟩
  · intro error
    rw [graft_eq_error_iff]
    constructor
    · intro h
      obtain ⟨e, hfirst, rfl⟩ := h
      exact ⟨e, hfirst, rfl, GraftError.message_targetMismatch _ _⟩
    · intro h
      obtain ⟨e, hfirst, htold, _⟩ := h
      exact ⟨e, hfirst, htold⟩

/-- The first operation merges; the second starts with a spread, and its first field bears the root
name of the base for an alias only. -/
example :
    let shop : Operation := ⟨.query, none, [], [], [.leaf "product"]⟩
    let orders : Selection := .field ⟨some "product", "orders", [], []⟩ []
    graft ⟨[.operation shop]⟩
        ⟨[.operation shop, .operation { shop with selections := [.spread "F" [], orders] }]⟩ =
      .error (.targetMismatch ["product"] (some "orders")) :=
  rfl

end Document

end QueryShaping
