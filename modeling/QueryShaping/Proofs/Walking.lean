import QueryShaping.Proofs.Places

namespace QueryShaping

namespace WalkNode

def value? : WalkNode → Option Value
  | .value v => some v
  | _ => none

def spread? : WalkNode → Option (Name × List Directive)
  | .selection (.spread fragment directives) => some (fragment, directives)
  | _ => none

end WalkNode

namespace Walker

variable {σ : Type}

/-- What is done at a node, and whether the walk goes on below it. -/
def meet (v : Walker σ) (s : σ) : WalkNode → σ × Bool
  | .selection (.field head children) => v.field s head children
  | .selection (.spread fragment directives) => v.spread s fragment directives
  | .selection (.inline condition directives children) => v.inline s condition directives children
  | .value value => v.value s value

/-- The walker that does at each node what a function of nodes says. -/
def ofMeet (f : σ → WalkNode → σ × Bool) : Walker σ where
  field s head children := f s (.selection (.field head children))
  spread s fragment directives := f s (.selection (.spread fragment directives))
  inline s condition directives children := f s (.selection (.inline condition directives children))
  value s value := f s (.value value)

theorem meet_ofMeet (f : σ → WalkNode → σ × Bool) (s : σ) (n : WalkNode) :
    (ofMeet f).meet s n = f s n := by
  cases n with
  | selection selection => cases selection <;> rfl
  | value value => rfl

def walkNode (v : Walker σ) (s : σ) : WalkNode → σ
  | .selection selection => v.walkSelection s selection
  | .value value => v.walkValue s value

section

variable (v : Walker σ)

theorem walkItems_eq (s : σ) (items : List Value) :
    v.walkItems s items = items.foldl v.walkValue s := by
  induction items generalizing s with
  | nil => rw [walkItems, List.foldl_nil]
  | cons value rest ih => rw [walkItems, ih, List.foldl_cons]

theorem walkObject_eq (s : σ) (fields : List (Name × Value)) :
    v.walkObject s fields = (fields.map (·.2)).foldl v.walkValue s := by
  induction fields generalizing s with
  | nil => rw [walkObject, List.map_nil, List.foldl_nil]
  | cons field rest ih => rw [walkObject, ih, List.map_cons, List.foldl_cons]

theorem walkSelections_eq (s : σ) (set : List Selection) :
    v.walkSelections s set = set.foldl v.walkSelection s := by
  induction set generalizing s with
  | nil => rw [walkSelections, List.foldl_nil]
  | cons selection rest ih => rw [walkSelections, ih, List.foldl_cons]

theorem walkArguments_eq (s : σ) (arguments : List Argument) :
    v.walkArguments s arguments = (arguments.map (·.value)).foldl v.walkValue s :=
  List.foldl_map.symm

theorem walkDirectives_eq (s : σ) (directives : List Directive) :
    v.walkDirectives s directives = (directiveValues directives).foldl v.walkValue s := by
  simp only [walkDirectives, directiveValues, List.foldl_flatMap, walkArguments_eq]

theorem foldl_walkNode_values (s : σ) (values : List Value) :
    (values.map WalkNode.value).foldl v.walkNode s = values.foldl v.walkValue s :=
  List.foldl_map

theorem foldl_walkNode_selections (s : σ) (set : List Selection) :
    (set.map WalkNode.selection).foldl v.walkNode s = v.walkSelections s set := by
  rw [walkSelections_eq]
  exact List.foldl_map

theorem walkNode_value_eq (s : σ) (value : Value) :
    v.walkNode s (.value value) =
      if (v.meet s (.value value)).2 then
        (WalkNode.below (.value value)).foldl v.walkNode (v.meet s (.value value)).1
      else (v.meet s (.value value)).1 := by
  simp only [WalkNode.below, foldl_walkNode_values]
  cases value with
  | list items =>
    simp only [walkNode, walkValue, walkItems_eq]
    rfl
  | object fields =>
    simp only [walkNode, walkValue, walkObject_eq]
    rfl
  | _ => rfl

theorem walkNode_selection_eq (s : σ) (selection : Selection) :
    v.walkNode s (.selection selection) =
      if (v.meet s (.selection selection)).2 then
        (WalkNode.below (.selection selection)).foldl v.walkNode
          (v.meet s (.selection selection)).1
      else (v.meet s (.selection selection)).1 := by
  simp only [WalkNode.below, List.foldl_append, foldl_walkNode_values, foldl_walkNode_selections]
  cases selection with
  | field head children =>
    simp only [walkNode, walkSelection, Selection.values, List.foldl_append, walkArguments_eq,
      walkDirectives_eq]
    rfl
  | spread fragment directives =>
    simp only [walkNode, walkSelection, Selection.children, walkSelections, walkDirectives_eq]
    rfl
  | inline condition directives children =>
    simp only [walkNode, walkSelection, walkDirectives_eq]
    rfl

/-- A walk does what it does at a node, and then walks through what is below, or not. -/
theorem walkNode_eq (s : σ) (n : WalkNode) :
    v.walkNode s n =
      if (v.meet s n).2 then n.below.foldl v.walkNode (v.meet s n).1 else (v.meet s n).1 := by
  cases n with
  | selection selection => exact v.walkNode_selection_eq s selection
  | value value => exact v.walkNode_value_eq s value

theorem walkOperation_eq (s : σ) (op : Operation) :
    v.walkOperation s op = (Definition.operation op).nodes.foldl v.walkNode s := by
  simp only [walkOperation, Definition.nodes, List.foldl_append, foldl_walkNode_values,
    foldl_walkNode_selections, walkDirectives_eq]

theorem walkFragment_eq (s : σ) (f : Fragment) :
    v.walkFragment s f = (Definition.fragment f).nodes.foldl v.walkNode s := by
  simp only [walkFragment, Definition.nodes, List.foldl_append, foldl_walkNode_values,
    foldl_walkNode_selections, walkDirectives_eq]

theorem walkDefinition_eq (s : σ) (definition : Definition) :
    v.walkDefinition s definition = definition.nodes.foldl v.walkNode s := by
  cases definition with
  | operation op => exact v.walkOperation_eq s op
  | fragment f => exact v.walkFragment_eq s f
  | typeSystem t => rfl

theorem walkDocument_eq (s : σ) (d : Document) :
    v.walkDocument s d = d.nodes.foldl v.walkNode s := by
  simp only [Document.nodes, List.foldl_flatMap, ← walkDefinition_eq]
  rfl

end

/-- Whether a walker goes on below a node does not hang on what it has met. -/
def Steady (v : Walker σ) (goesOn : WalkNode → Bool) : Prop :=
  ∀ s n, (v.meet s n).2 = goesOn n

section

variable {v : Walker σ} {goesOn : WalkNode → Bool}

theorem Steady.foldl_walkNode (h : v.Steady goesOn) (i : Nat) (nodes : List WalkNode) (s : σ) :
    nodes.foldl v.walkNode s =
      (placesFrom goesOn i nodes).foldl (fun s p => (v.meet s p.node).1) s := by
  induction i, nodes using placesFrom.induct generalizing s with
  | case1 i => rw [placesFrom, List.foldl_nil, List.foldl_nil]
  | case2 i n rest inner ih =>
    rw [placesFrom, List.foldl_cons, v.walkNode_eq, h s n, ih]
    cases goesOn n with
    | false => rfl
    | true =>
      rw [if_pos rfl, if_pos rfl, inner, List.cons_append, List.foldl_cons, List.foldl_append,
        List.foldl_map]
      rfl

theorem Steady.walkDocument_eq (h : v.Steady goesOn) (s : σ) (d : Document) :
    v.walkDocument s d = (d.placesMet goesOn).foldl (fun s p => (v.meet s p.node).1) s := by
  rw [v.walkDocument_eq]
  exact h.foldl_walkNode 0 d.nodes s

end

/-- A walker acts on what it picks out of the nodes, and goes on everywhere. -/
def Picks {α : Type} (v : Walker σ) (pick : WalkNode → Option α) (act : σ → α → σ) : Prop :=
  ∀ s n, v.meet s n = ((pick n).elim s (act s), true)

theorem Picks.foldl_walkNode {α : Type} {v : Walker σ} {pick : WalkNode → Option α}
    {act : σ → α → σ} (h : v.Picks pick act) (i : Nat) (nodes : List WalkNode) (s : σ) :
    nodes.foldl v.walkNode s =
      ((placesFrom (fun _ => true) i nodes).filterMap (pick ·.node)).foldl act s := by
  have hsteady : v.Steady fun _ => true := fun s n => congrArg Prod.snd (h s n)
  rw [hsteady.foldl_walkNode i, List.foldl_filterMap]
  congr 1
  funext s p
  rw [h]
  cases pick p.node <;> rfl

theorem Picks.walkDocument_eq {α : Type} {v : Walker σ} {pick : WalkNode → Option α}
    {act : σ → α → σ} (h : v.Picks pick act) (s : σ) (d : Document) :
    v.walkDocument s d = (d.places.filterMap (pick ·.node)).foldl act s := by
  rw [v.walkDocument_eq]
  exact h.foldl_walkNode 0 d.nodes s

theorem meet_recorder (stop : List NodeKind) (events : List WalkEvent) (n : WalkNode) :
    (recorder stop).meet events n = (n.event :: events, !stop.contains n.kind) :=
  meet_ofMeet (fun events n => (n.event :: events, !stop.contains n.kind)) events n

theorem recorder_walkDocument (stop : List NodeKind) (d : Document) :
    ((recorder stop).walkDocument [] d).reverse =
      (d.placesMet fun n => !stop.contains n.kind).map (·.node.event) := by
  have hsteady : (recorder stop).Steady fun n => !stop.contains n.kind :=
    fun events n => congrArg Prod.snd (meet_recorder stop events n)
  rw [hsteady.walkDocument_eq]
  simp only [meet_recorder, List.foldl_flip_cons_eq_append, List.append_nil, List.reverse_reverse]

theorem walkDocument_of_stop (stop : List NodeKind) (act : σ → WalkNode → σ) (s : σ)
    (d : Document) :
    (ofMeet fun s n => (act s n, !stop.contains n.kind)).walkDocument s d =
      (d.placesMet fun n => !stop.contains n.kind).foldl (fun s p => act s p.node) s := by
  have hsteady : (ofMeet fun s n => (act s n, !stop.contains n.kind)).Steady
      fun n => !stop.contains n.kind :=
    fun s n => congrArg Prod.snd (meet_ofMeet _ s n)
  rw [hsteady.walkDocument_eq]
  simp only [meet_ofMeet]

end Walker

theorem Document.mem_places_iff (d : Document) (p : Place) :
    p ∈ d.places ↔ StandsAt d.nodes p.way p.node := by
  rw [places, mem_placesFrom_iff]
  constructor
  · rintro ⟨j, way, hway, hstands⟩
    rw [hway, Nat.zero_add]
    exact hstands
  · intro h
    obtain ⟨j, way, hway⟩ := h.exists_cons
    exact ⟨j, way, by rw [hway, Nat.zero_add], hway ▸ h⟩

/-- The places of a document are those of all that stands in it, in order and none twice. A walker
that goes on everywhere comes to them all, whatever it does there; one that is about values alone,
or about spreads alone, comes to those among them; and one that does not go on below some kinds of
nodes leaves out what stands below one that it has come to. -/
theorem walks_meet_same_places (d : Document) :
    d.places.Pairwise (·.way < ·.way) ∧
    (∀ p, p ∈ d.places ↔ StandsAt d.nodes p.way p.node) ∧
    ((Walker.recorder []).walkDocument [] d).reverse = d.places.map (·.node.event) ∧
    (∀ (σ : Type) (act : σ → WalkNode → σ) (s : σ),
      (Walker.ofMeet fun s n => (act s n, true)).walkDocument s d =
        d.places.foldl (fun s p => act s p.node) s) ∧
    (∀ (σ : Type) (meet : σ → Value → σ) (s : σ),
      Walker.walkDocument { value := fun s value => (meet s value, true) } s d =
        (d.places.filterMap (·.node.value?)).foldl meet s) ∧
    (∀ (σ : Type) (meet : σ → Name × List Directive → σ) (s : σ),
      Walker.walkDocument
          { spread := fun s fragment directives => (meet s (fragment, directives), true) } s d =
        (d.places.filterMap (·.node.spread?)).foldl meet s) ∧
    ∀ stop : List NodeKind, ∃ met,
      LeavesOut (fun n => !stop.contains n.kind) d.places met ∧
        ((Walker.recorder stop).walkDocument [] d).reverse = met.map (·.node.event) ∧
        ∀ (σ : Type) (act : σ → WalkNode → σ) (s : σ),
          (Walker.ofMeet fun s n => (act s n, !stop.contains n.kind)).walkDocument s d =
            met.foldl (fun s p => act s p.node) s := by
  refine ⟨pairwise_placesFrom, d.mem_places_iff, Walker.recorder_walkDocument [] d, ?_, ?_, ?_, ?_⟩
  · intro σ act s
    exact Walker.walkDocument_of_stop [] act s d
  · intro σ meet s
    apply Walker.Picks.walkDocument_eq
    intro s n
    rcases n with (_ | _ | _) | _ <;> rfl
  · intro σ meet s
    apply Walker.Picks.walkDocument_eq
    intro s n
    rcases n with (_ | _ | _) | _ <;> rfl
  · intro stop
    exact ⟨d.placesMet fun n => !stop.contains n.kind,
      leavesOut_placesFrom (fun n => !stop.contains n.kind) 0 d.nodes,
      Walker.recorder_walkDocument stop d,
      fun σ act s => Walker.walkDocument_of_stop stop act s d⟩

/-- Below the field are a value, and a spread with one; the list beside it is gone into. -/
example :
    let shown : Directive := ⟨"include", [⟨"if", .list [.var "shown"]⟩]⟩
    let cards : Selection :=
      .field ⟨none, "cards", [⟨"first", .int "1"⟩], []⟩ [.spread "Card" [shown]]
    ((Walker.recorder [.field]).walkDocument []
        ⟨[.operation ⟨.query, none, [], [shown], [cards, .spread "Page" []]⟩]⟩).reverse =
      [.value (.list [.var "shown"]), .value (.var "shown"), .field "cards", .spread "Page"] :=
  rfl

end QueryShaping
