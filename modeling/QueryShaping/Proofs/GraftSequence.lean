import QueryShaping.Proofs.Grafting

namespace QueryShaping

theorem mergeOperations_append (expected : List Name) (ops es more : List Operation) :
    mergeOperations expected ops (es ++ more) =
      (mergeOperations expected ops es).bind (mergeOperations expected · more) := by
  induction es generalizing ops with
  | nil => rfl
  | cons e rest ih =>
    simp only [List.cons_append, mergeOperations]
    split
    · rfl
    · rw [ih]

namespace Document

theorem operations_append (definitions more : List Definition) :
    (Document.mk (definitions ++ more)).operations =
      (Document.mk definitions).operations ++ (Document.mk more).operations := by
  simp [operations]

theorem fragments_append (definitions more : List Definition) :
    (Document.mk (definitions ++ more)).fragments =
      (Document.mk definitions).fragments ++ (Document.mk more).fragments := by
  simp [fragments]

theorem typeSystem_append (definitions more : List Definition) :
    (Document.mk (definitions ++ more)).typeSystem =
      (Document.mk definitions).typeSystem ++ (Document.mk more).typeSystem := by
  simp [typeSystem]

theorem graft_eq_map (base extension : Document) :
    base.graft extension =
      (mergeOperations (rootNames base.operations) base.operations extension.operations).map
        (assemble · base extension) := by
  unfold graft
  cases mergeOperations (rootNames base.operations) base.operations extension.operations <;> rfl

theorem assemble_congr {base base' extension extension' : Document} (ops : List Operation)
    (hfragments : base.fragments ++ extension.fragments = base'.fragments ++ extension'.fragments)
    (htypes : base.typeSystem ++ extension.typeSystem =
      base'.typeSystem ++ extension'.typeSystem) :
    assemble ops base extension = assemble ops base' extension' := by
  rw [assemble, assemble, hfragments, htypes]

theorem assemble_assemble (ops merged : List Operation) (base : Document)
    (definitions more : List Definition) :
    assemble merged (assemble ops base ⟨definitions⟩) ⟨more⟩ =
      assemble merged base ⟨definitions ++ more⟩ := by
  apply assemble_congr
  · rw [fragments_assemble, fragments_append, List.append_assoc]
  · rw [typeSystem_assemble, typeSystem_append, List.append_assoc]

/-- Two grafts are one graft of the definitions of both extensions. -/
theorem graft_graft (base extension more : Document) :
    (base.graft extension).bind (·.graft more) =
      base.graft ⟨extension.definitions ++ more.definitions⟩ := by
  have hparts : (Document.mk (extension.definitions ++ more.definitions)).operations =
      extension.operations ++ more.operations := operations_append _ _
  rw [graft_eq_map base extension, graft_eq_map base ⟨_⟩, hparts, mergeOperations_append]
  cases hops : mergeOperations (rootNames base.operations) base.operations
      extension.operations with
  | error e => rfl
  | ok ops =>
    have hroots := rootNames_eq_of_roots (roots_mergeOperations hops)
    change (assemble ops base extension).graft more = Except.map _ (mergeOperations _ ops _)
    rw [graft_eq_map, operations_assemble, hroots]
    congr 1
    funext merged
    exact assemble_assemble ops merged base extension.definitions more.definitions

theorem graftAll_cons (settings : GraftSettings) (base extension : Document)
    (rest : List GraftSource) :
    base.graftAll settings (.document extension :: rest) =
      (base.graft extension).bind (·.graftAll settings rest) := by
  have hread : base.graftSource settings (.document extension) = base.graft extension := rfl
  rw [graftAll, hread]
  cases base.graft extension <;> rfl

/-- Applying documents one after the other, each to the result of the one before it, is applying all
their definitions at once: the result is the same, and so is the mismatch told on failure. -/
theorem graftAll_documents (settings : GraftSettings) (base first : Document)
    (rest : List Document) :
    base.graftAll settings ((first :: rest).map .document) =
      base.graft ⟨(first :: rest).flatMap (·.definitions)⟩ := by
  induction rest generalizing base first with
  | nil =>
    have hone : (Document.graftAll settings · []) =
        (Except.ok : Document → Except GraftError _) := rfl
    rw [List.map_cons, graftAll_cons, List.map_nil, hone, List.flatMap_singleton]
    exact bind_pure (base.graft first)
  | cons second rest ih =>
    have hrest : (Document.graftAll settings · ((second :: rest).map .document)) =
        fun d => d.graft ⟨(second :: rest).flatMap (·.definitions)⟩ := by
      funext d
      exact ih d second
    rw [List.map_cons, graftAll_cons, hrest, graft_graft]
    rfl

end Document

end QueryShaping
