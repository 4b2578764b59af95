import QueryShaping.Proofs.Sweep

namespace QueryShaping

theorem Operation.keepVariables_congr {live live' : List Name} {op : Operation}
    (h : ∀ x, x ∈ live ↔ x ∈ live') : op.keepVariables live = op.keepVariables live' := by
  have hsame : ∀ v : VariableDefinition, live.contains v.name = live'.contains v.name := by
    intro v
    rw [Bool.eq_iff_iff, List.contains_iff_mem, List.contains_iff_mem, h]
  simp only [keepVariables, hsame]

theorem Definition.isLive_mapOperation (live : List Name) (change : Operation → Operation)
    (x : Definition) : (x.mapOperation change).isLive live = x.isLive live := by
  cases x <;> rfl

namespace Document

/-- No fragment definition is out of reach, and no variable definition is out of use. -/
structure NothingUnused (d : Document) : Prop where
  reached : ∀ f ∈ d.fragments, d.Reachable f.name
  used : ∀ op ∈ d.operations, ∀ v ∈ op.variableDefs, d.UsedFrom op v.name

variable {d : Document} {op : Operation} {name x : Name}

theorem ReachableFrom.reachable (h : d.ReachableFrom op name) (hop : op ∈ d.operations) :
    d.Reachable name :=
  h.mono (fun _ hf => hf) fun _ hn => .start ⟨op, hop, hn⟩

theorem reachable_dropUnusedFragments_iff :
    d.dropUnusedFragments.Reachable name ↔ d.Reachable name := by
  unfold Reachable
  rw [operations_dropUnusedFragments]
  constructor
  · intro h
    exact h.mono (fun _ hf => mem_of_mem_dropUnusedFragments hf) fun _ hn => .start hn
  · intro h
    exact h.of_kept fun _ hf hr => mem_dropUnusedFragments hf hr

theorem reachableFrom_dropUnusedFragments_iff (hop : op ∈ d.operations) :
    d.dropUnusedFragments.ReachableFrom op name ↔ d.ReachableFrom op name := by
  constructor
  · intro h
    exact h.mono (fun _ hf => mem_of_mem_dropUnusedFragments hf) fun _ hn => .start hn
  · intro h
    exact h.of_kept fun _ hf hr => mem_dropUnusedFragments hf (ReachableFrom.reachable hr hop)

theorem usedFrom_dropUnusedFragments_iff (hop : op ∈ d.operations) :
    d.dropUnusedFragments.UsedFrom op x ↔ d.UsedFrom op x := by
  unfold UsedFrom
  simp only [reachableFrom_dropUnusedFragments_iff hop]
  constructor
  · intro h
    rcases h with h | ⟨f, hf, hr, huses⟩
    · exact .inl h
    · exact .inr ⟨f, mem_of_mem_dropUnusedFragments hf, hr, huses⟩
  · intro h
    rcases h with h | ⟨f, hf, hr, huses⟩
    · exact .inl h
    · exact .inr ⟨f, mem_dropUnusedFragments hf (hr.reachable hop), hr, huses⟩

theorem reachable_dropUnusedVariables_iff :
    d.dropUnusedVariables.Reachable name ↔ d.Reachable name := by
  unfold Reachable
  rw [fragments_dropUnusedVariables, operations_dropUnusedVariables]
  have hstart : ∀ n, (∃ op ∈ d.operations.map fun op => op.keepVariables (d.liveVariables op),
      op.LeadsTo n) ↔ ∃ op ∈ d.operations, op.LeadsTo n := by
    intro n
    simp only [List.mem_map, exists_exists_and_eq_and]
    rfl
  simp only [hstart]

theorem usedFrom_dropUnusedVariables_iff {live : List Name} :
    d.dropUnusedVariables.UsedFrom (op.keepVariables live) x ↔ d.UsedFrom op x := by
  unfold UsedFrom ReachableFrom
  rw [fragments_dropUnusedVariables]
  rfl

theorem liveFragments_dropUnusedVariables (d : Document) :
    d.dropUnusedVariables.liveFragments = d.liveFragments := by
  rw [liveFragments, fragmentGroups, fragments_dropUnusedVariables, operations_dropUnusedVariables,
    List.foldl_map]
  rfl

theorem dropUnused_comm (d : Document) :
    d.dropUnusedFragments.dropUnusedVariables = d.dropUnusedVariables.dropUnusedFragments := by
  have hlive : ∀ x ∈ d.definitions,
      x.mapOperation (fun op => op.keepVariables (d.dropUnusedFragments.liveVariables op)) =
        x.mapOperation fun op => op.keepVariables (d.liveVariables op) := by
    intro x hx
    cases x with
    | operation op =>
      have hop : op ∈ d.operations := List.mem_filterMap.mpr ⟨_, hx, rfl⟩
      have hused : ∀ x, x ∈ d.dropUnusedFragments.liveVariables op ↔ x ∈ d.liveVariables op := by
        intro x
        rw [mem_liveVariables_iff, mem_liveVariables_iff, usedFrom_dropUnusedFragments_iff hop]
      simp only [Definition.mapOperation, Operation.keepVariables_congr hused]
    | fragment f => rfl
    | typeSystem t => rfl
  calc d.dropUnusedFragments.dropUnusedVariables
      = ⟨(d.definitions.filter (·.isLive d.liveFragments)).map
          (·.mapOperation fun op => op.keepVariables (d.liveVariables op))⟩ := by
        refine congrArg Document.mk (List.map_congr_left ?_)
        intro x hx
        exact hlive x (List.mem_filter.mp hx).1
    _ = d.dropUnusedVariables.dropUnusedFragments := by
        rw [dropUnusedFragments, liveFragments_dropUnusedVariables, dropUnusedVariables,
          List.filter_map]
        simp only [Function.comp_def, Definition.isLive_mapOperation]

theorem nothingUnused_sweep (d : Document) : d.sweep.NothingUnused where
  reached := by
    intro f hf
    rw [sweep, fragments_dropUnusedVariables, fragments_dropUnusedFragments, List.mem_filter,
      List.contains_iff_mem, mem_liveFragments_iff] at hf
    rw [sweep, reachable_dropUnusedVariables_iff, reachable_dropUnusedFragments_iff]
    exact hf.2
  used := by
    intro op hop v hv
    rw [sweep, operations_dropUnusedVariables] at hop
    obtain ⟨op, _, rfl⟩ := List.mem_map.mp hop
    have hlive := (List.mem_filter.mp hv).2
    rw [List.contains_iff_mem, mem_liveVariables_iff] at hlive
    rw [sweep, usedFrom_dropUnusedVariables_iff]
    exact hlive

theorem dropUnusedFragments_eq_self (h : d.NothingUnused) : d.dropUnusedFragments = d := by
  have hlive : ∀ x ∈ d.definitions, x.isLive d.liveFragments = true := by
    intro x hx
    cases x with
    | operation op => rfl
    | fragment f =>
      have hf : f ∈ d.fragments := List.mem_filterMap.mpr ⟨_, hx, rfl⟩
      rw [Definition.isLive, List.contains_iff_mem, mem_liveFragments_iff]
      exact h.reached f hf
    | typeSystem t => rfl
  rw [dropUnusedFragments, List.filter_eq_self.mpr hlive]

theorem dropUnusedVariables_eq_self (h : d.NothingUnused) : d.dropUnusedVariables = d := by
  have hsame : ∀ x ∈ d.definitions,
      x.mapOperation (fun op => op.keepVariables (d.liveVariables op)) = x := by
    intro x hx
    cases x with
    | operation op =>
      have hop : op ∈ d.operations := List.mem_filterMap.mpr ⟨_, hx, rfl⟩
      have hlive : ∀ v ∈ op.variableDefs, (d.liveVariables op).contains v.name = true := by
        intro v hv
        rw [List.contains_iff_mem, mem_liveVariables_iff]
        exact h.used op hop v hv
      rw [Definition.mapOperation, Operation.keepVariables, List.filter_eq_self.mpr hlive]
    | fragment f => rfl
    | typeSystem t => rfl
  rw [dropUnusedVariables, List.map_congr_left hsame, List.map_id']

theorem sweep_eq_self_iff : d.sweep = d ↔ d.NothingUnused := by
  constructor
  · intro h
    rw [← h]
    exact nothingUnused_sweep d
  · intro h
    rw [sweep, dropUnusedFragments_eq_self h, dropUnusedVariables_eq_self h]

/-- The two passes of the sweep commute, and a second sweep changes nothing: it leaves alone exactly
the documents with nothing unused, and the first sweep makes one. -/
theorem sweep_passes_commute (d : Document) :
    d.dropUnusedFragments.dropUnusedVariables = d.dropUnusedVariables.dropUnusedFragments ∧
      d.sweep.sweep = d.sweep ∧ d.sweep.NothingUnused := by
  have hleft : d.sweep.NothingUnused := nothingUnused_sweep d
  exact ⟨dropUnused_comm d, sweep_eq_self_iff.mpr hleft, hleft⟩

end Document

end QueryShaping
