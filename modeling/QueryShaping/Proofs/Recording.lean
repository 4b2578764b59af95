import QueryShaping.Proofs.Walking

namespace QueryShaping

/-- Nodes with all that stands below them, in the order in which a walk meets them. -/
def nodesThrough : List WalkNode → List WalkNode
  | [] => []
  | n :: rest => n :: (nodesThrough n.below ++ nodesThrough rest)
termination_by nodes => (nodes.map sizeOf).sum
decreasing_by
  · have hbelow := n.sum_sizeOf_below_lt
    simp only [List.map_cons, List.sum_cons]
    omega
  · have hpos : 0 < sizeOf n := Nat.zero_lt_of_lt n.sum_sizeOf_below_lt
    simp only [List.map_cons, List.sum_cons]
    omega

theorem map_node_placesFrom (i : Nat) (nodes : List WalkNode) :
    (placesFrom (fun _ => true) i nodes).map (·.node) = nodesThrough nodes := by
  induction i, nodes using placesFrom.induct with
  | case1 i => rw [placesFrom, nodesThrough, List.map_nil]
  | case2 i n rest inner ih =>
    rw [placesFrom, nodesThrough, ← inner, ← ih, if_pos rfl, List.cons_append, List.map_cons,
      List.map_append, List.map_map]
    rfl

theorem mem_nodesThrough_cons_iff {m n : WalkNode} {rest : List WalkNode} :
    m ∈ nodesThrough (n :: rest) ↔ m = n ∨ m ∈ nodesThrough n.below ∨ m ∈ nodesThrough rest := by
  rw [nodesThrough, List.mem_cons, List.mem_append]

/-- If a node has a property by being a certain node, or through one below it, then nodes through
which that one is met are those with the property. -/
theorem mem_nodesThrough_iff {m : WalkNode} {Has : WalkNode → Prop}
    (step : ∀ n, Has n ↔ m = n ∨ ∃ k ∈ n.below, Has k) (nodes : List WalkNode) :
    m ∈ nodesThrough nodes ↔ ∃ n ∈ nodes, Has n := by
  induction nodes using nodesThrough.induct with
  | case1 => simp [nodesThrough]
  | case2 n rest below ih =>
    simp only [mem_nodesThrough_cons_iff, below, ih, List.mem_cons, exists_eq_or_imp, step n,
      or_assoc]

/-- A selection stands at a node or below it. -/
def WalkNode.Selects (s : Selection) : WalkNode → Prop
  | .selection t => s = t ∨ Within s t.children
  | .value _ => False

/-- A variable stands in a value at a node or below it. -/
def WalkNode.Holds (x : Name) : WalkNode → Prop
  | .selection s => s.Carries x ∨ ∃ t, Within t s.children ∧ t.Carries x
  | .value v => v.Holds x

namespace WalkNode

def variableName? : WalkNode → Option Name
  | .value (.var name) => some name
  | _ => none

def spreadName? : WalkNode → Option Name
  | .selection s => s.spreadName?
  | .value _ => none

end WalkNode

theorem within_iff {s : Selection} (set : List Selection) :
    Within s set ↔ ∃ t ∈ set, s = t ∨ Within s t.children := by
  induction set with
  | nil => simp [Within, not_found_nil]
  | cons t rest ih =>
    simp only [Within] at ih ⊢
    simp only [found_cons_iff, ih, List.mem_cons, exists_eq_or_imp, or_assoc]

theorem exists_within_iff {p : Selection → Prop} (set : List Selection) :
    (∃ s, Within s set ∧ p s) ↔ ∃ t ∈ set, p t ∨ ∃ s, Within s t.children ∧ p s := by
  simp only [within_iff set]
  constructor
  · rintro ⟨s, ⟨t, ht, rfl | hs⟩, hp⟩
    · exact ⟨s, ht, .inl hp⟩
    · exact ⟨t, ht, .inr ⟨s, hs, hp⟩⟩
  · rintro ⟨t, ht, hp | ⟨s, hs, hp⟩⟩
    · exact ⟨t, ⟨t, ht, .inl rfl⟩, hp⟩
    · exact ⟨s, ⟨t, ht, .inr hs⟩, hp⟩

theorem WalkNode.selects_iff {s : Selection} (n : WalkNode) :
    n.Selects s ↔ .selection s = n ∨ ∃ k ∈ n.below, k.Selects s := by
  cases n with
  | selection t => simp [Selects, below, within_iff t.children, or_and_right, exists_or]
  | value v => simp [Selects, below]

theorem heldByArguments_iff {x : Name} {arguments : List Argument} :
    HeldByArguments x arguments ↔ ∃ v ∈ arguments.map (·.value), v.Holds x := by
  simp only [HeldByArguments, List.mem_map, exists_exists_and_eq_and]

theorem heldByDirectives_iff {x : Name} {directives : List Directive} :
    HeldByDirectives x directives ↔ ∃ v ∈ directiveValues directives, v.Holds x := by
  simp only [HeldByDirectives, heldByArguments_iff, directiveValues, List.mem_flatMap]
  constructor
  · rintro ⟨d, hd, v, hv, hx⟩
    exact ⟨v, ⟨d, hd, hv⟩, hx⟩
  · rintro ⟨v, ⟨d, hd, hv⟩, hx⟩
    exact ⟨d, hd, v, hv, hx⟩

theorem Selection.carries_iff {x : Name} {s : Selection} :
    s.Carries x ↔ ∃ v ∈ s.values, v.Holds x := by
  cases s with
  | field head children =>
    simp only [Carries, values, heldByArguments_iff, heldByDirectives_iff, List.mem_append,
      or_and_right, exists_or]
  | spread fragment directives => exact heldByDirectives_iff
  | inline condition directives children => exact heldByDirectives_iff

theorem Value.holds_iff {x : Name} {v : Value} :
    v.Holds x ↔ .var x = v ∨ ∃ part ∈ v.parts, part.Holds x := by
  constructor
  · intro h
    cases h with
    | var => exact .inl rfl
    | item member inner => exact .inr ⟨_, member, inner⟩
    | field member inner => exact .inr ⟨_, List.mem_map_of_mem member, inner⟩
  · intro h
    rcases h with rfl | ⟨part, hpart, inner⟩
    · exact .var
    · cases v with
      | list items => exact .item hpart inner
      | object fields =>
        obtain ⟨⟨name, value⟩, hfield, rfl⟩ := List.mem_map.mp hpart
        exact .field hfield inner
      | _ => cases hpart

theorem WalkNode.holds_iff {x : Name} (n : WalkNode) :
    n.Holds x ↔ .value (.var x) = n ∨ ∃ k ∈ n.below, k.Holds x := by
  cases n with
  | selection s =>
    simp [Holds, below, Selection.carries_iff (s := s), exists_within_iff s.children,
      or_and_right, exists_or]
  | value v => simp [Holds, below, Value.holds_iff (v := v)]

theorem spread_mem_nodesThrough_iff {name : Name} {values : List Value} {set : List Selection} :
    (∃ n ∈ nodesThrough (values.map .value ++ set.map .selection), n.spreadName? = some name) ↔
      ∃ s, Within s set ∧ s.spreadName? = some name := by
  have hnodes : ∀ s, .selection s ∈ nodesThrough (values.map .value ++ set.map .selection) ↔
      Within s set := by
    intro s
    rw [mem_nodesThrough_iff WalkNode.selects_iff, within_iff]
    simp [WalkNode.Selects, or_and_right, exists_or]
  constructor
  · rintro ⟨n, hn, hname⟩
    cases n with
    | selection s => exact ⟨s, (hnodes s).mp hn, hname⟩
    | value v => cases hname
  · rintro ⟨s, hs, hname⟩
    exact ⟨_, (hnodes s).mpr hs, hname⟩

theorem variable_mem_nodesThrough_iff {x : Name} {directives : List Directive}
    {set : List Selection} :
    (∃ n ∈ nodesThrough ((directiveValues directives).map .value ++ set.map .selection),
      n.variableName? = some x) ↔
      HeldByDirectives x directives ∨ ∃ s, Within s set ∧ s.Carries x := by
  have hvariable : ∀ n : WalkNode, n.variableName? = some x ↔ n = .value (.var x) := by
    intro n
    rcases n with _ | v
    · simp [WalkNode.variableName?]
    · cases v <;> simp [WalkNode.variableName?]
  simp only [hvariable, exists_eq_right]
  rw [mem_nodesThrough_iff WalkNode.holds_iff, heldByDirectives_iff, exists_within_iff]
  simp [WalkNode.Holds, or_and_right, exists_or]

namespace Walker

variable {σ α : Type} {pick : WalkNode → Option α}

theorem Picks.foldl_nodesThrough {v : Walker σ} {act : σ → α → σ} (h : v.Picks pick act)
    (nodes : List WalkNode) (s : σ) :
    nodes.foldl v.walkNode s = ((nodesThrough nodes).filterMap pick).foldl act s := by
  rw [h.foldl_walkNode 0, ← map_node_placesFrom 0, List.filterMap_map]
  rfl

theorem Picks.mem_foldl_walkNode {v : Walker (List α)}
    (h : v.Picks pick fun found a => a :: found) {nodes : List WalkNode} {found : List α} {a : α} :
    a ∈ nodes.foldl v.walkNode found ↔ (∃ n ∈ nodesThrough nodes, pick n = some a) ∨ a ∈ found := by
  rw [h.foldl_nodesThrough, List.foldl_flip_cons_eq_append, List.map_id', List.mem_append,
    List.mem_reverse, List.mem_filterMap]

theorem picks_spreadRecorder :
    spreadRecorder.Picks WalkNode.spreadName? fun names name => name :: names := by
  intro names n
  rcases n with (_ | _ | _) | _ <;> rfl

theorem picks_variableRecorder :
    variableRecorder.Picks WalkNode.variableName? fun names name => name :: names := by
  intro names n
  rcases n with (_ | _ | _) | (_ | _ | _ | _ | _ | _ | _ | _ | _) <;> rfl

variable {names : List Name} {name : Name}

theorem mem_spreadRecorder_walkFragment_iff {f : Fragment} :
    name ∈ spreadRecorder.walkFragment names f ↔ f.LeadsTo name ∨ name ∈ names := by
  rw [walkFragment_eq, picks_spreadRecorder.mem_foldl_walkNode, Definition.nodes,
    spread_mem_nodesThrough_iff]
  rfl

theorem mem_spreadRecorder_walkOperation_iff {op : Operation} :
    name ∈ spreadRecorder.walkOperation names op ↔ op.LeadsTo name ∨ name ∈ names := by
  rw [walkOperation_eq, picks_spreadRecorder.mem_foldl_walkNode, Definition.nodes,
    spread_mem_nodesThrough_iff]
  rfl

theorem mem_variableRecorder_walkFragment_iff {f : Fragment} :
    name ∈ variableRecorder.walkFragment names f ↔ f.Uses name ∨ name ∈ names := by
  rw [walkFragment_eq, picks_variableRecorder.mem_foldl_walkNode, Definition.nodes,
    variable_mem_nodesThrough_iff]
  rfl

theorem mem_variableRecorder_walkOperation_iff {op : Operation} :
    name ∈ variableRecorder.walkOperation names op ↔ op.Uses name ∨ name ∈ names := by
  rw [walkOperation_eq, picks_variableRecorder.mem_foldl_walkNode, Definition.nodes,
    variable_mem_nodesThrough_iff]
  rfl

end Walker

end QueryShaping
