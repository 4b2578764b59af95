import Mathlib.Algebra.GroupWithZero.Nat
import QueryShaping.Proofs.Occurrence
import QueryShaping.Walk

namespace QueryShaping

def Selection.values : Selection → List Value
  | .field head _ => head.arguments.map (·.value) ++ directiveValues head.directives
  | .spread _ directives => directiveValues directives
  | .inline _ directives _ => directiveValues directives

def Value.parts : Value → List Value
  | .list items => items
  | .object fields => fields.map (·.2)
  | _ => []

inductive WalkNode where
  | selection (selection : Selection)
  | value (value : Value)

namespace WalkNode

/-- What stands directly below a node, in order. A spread is not followed. -/
def below : WalkNode → List WalkNode
  | .selection s => s.values.map (.value ·) ++ s.children.map (.selection ·)
  | .value v => v.parts.map (.value ·)

def event : WalkNode → WalkEvent
  | .selection (.field head _) => .field head.name
  | .selection (.spread fragment _) => .spread fragment
  | .selection (.inline condition _ _) => .inline condition
  | .value v => .value v

def kind : WalkNode → NodeKind
  | .selection (.field _ _) => .field
  | .selection (.spread _ _) => .spread
  | .selection (.inline _ _ _) => .inline
  | .value _ => .value

end WalkNode

/-- What stands at the top of a definition. The definitions of variables hold no nodes, nor does a
type system. -/
def Definition.nodes : Definition → List WalkNode
  | .operation op =>
    (directiveValues op.directives).map (.value ·) ++ op.selections.map (.selection ·)
  | .fragment f => (directiveValues f.directives).map (.value ·) ++ f.selections.map (.selection ·)
  | .typeSystem _ => []

def Document.nodes (d : Document) : List WalkNode :=
  d.definitions.flatMap Definition.nodes

theorem sum_map_le_sizeOf {α : Type} [SizeOf α] {size : α → Nat}
    (h : ∀ a, size a ≤ 1 + sizeOf a) (l : List α) : (l.map size).sum ≤ sizeOf l := by
  induction l with
  | nil => simp
  | cons a rest ih =>
    have ha := h a
    simp only [List.map_cons, List.sum_cons, List.cons.sizeOf_spec]
    omega

theorem sum_sizeOf_arguments_le (arguments : List Argument) :
    ((arguments.map (·.value)).map fun v => 1 + sizeOf v).sum ≤ sizeOf arguments := by
  rw [List.map_map]
  apply sum_map_le_sizeOf
  rintro ⟨name, value⟩
  simp only [Function.comp_apply, Argument.mk.sizeOf_spec]
  omega

theorem sum_sizeOf_directives_le (directives : List Directive) :
    ((directiveValues directives).map fun v => 1 + sizeOf v).sum ≤ sizeOf directives := by
  induction directives with
  | nil => simp [directiveValues]
  | cons directive rest ih =>
    obtain ⟨name, arguments⟩ := directive
    have harguments := sum_sizeOf_arguments_le arguments
    simp only [directiveValues, List.flatMap_cons, List.map_append, List.sum_append,
      List.cons.sizeOf_spec, Directive.mk.sizeOf_spec] at ih ⊢
    omega

theorem Selection.sum_sizeOf_below_lt (s : Selection) :
    (s.values.map fun v => 1 + sizeOf v).sum + (s.children.map fun t => 1 + sizeOf t).sum <
      sizeOf s := by
  match s with
  | .field ⟨_, _, arguments, directives⟩ children =>
    have harguments := sum_sizeOf_arguments_le arguments
    have hdirectives := sum_sizeOf_directives_le directives
    have hchildren := sum_map_le_sizeOf (fun t => Nat.le_refl (1 + sizeOf t)) children
    simp only [values, Selection.children, List.map_append, List.sum_append, field.sizeOf_spec,
      FieldHead.mk.sizeOf_spec]
    omega
  | .spread _ directives =>
    have hdirectives := sum_sizeOf_directives_le directives
    simp only [values, Selection.children, List.map_nil, List.sum_nil, spread.sizeOf_spec]
    omega
  | .inline _ directives children =>
    have hdirectives := sum_sizeOf_directives_le directives
    have hchildren := sum_map_le_sizeOf (fun t => Nat.le_refl (1 + sizeOf t)) children
    simp only [values, Selection.children, inline.sizeOf_spec]
    omega

theorem Value.sum_sizeOf_parts_lt (v : Value) :
    (v.parts.map fun part => 1 + sizeOf part).sum < 1 + sizeOf v := by
  cases v with
  | list items =>
    have hitems := sum_map_le_sizeOf (fun v => Nat.le_refl (1 + sizeOf v)) items
    simp only [parts, list.sizeOf_spec]
    omega
  | object fields =>
    have hfields : ((fields.map (·.2)).map fun v => 1 + sizeOf v).sum ≤ sizeOf fields := by
      rw [List.map_map]
      apply sum_map_le_sizeOf
      rintro ⟨name, value⟩
      simp only [Function.comp_apply, Prod.mk.sizeOf_spec]
      omega
    simp only [parts, object.sizeOf_spec]
    omega
  | _ => exact Nat.lt_add_right _ Nat.one_pos

theorem WalkNode.sum_sizeOf_below_lt (n : WalkNode) : (n.below.map sizeOf).sum < sizeOf n := by
  cases n with
  | selection s =>
    have hbelow := s.sum_sizeOf_below_lt
    simp only [below, List.map_append, List.sum_append, List.map_map, Function.comp_def,
      selection.sizeOf_spec, value.sizeOf_spec]
    omega
  | value v =>
    have hparts := v.sum_sizeOf_parts_lt
    simp only [below, List.map_map, Function.comp_def, value.sizeOf_spec]
    exact hparts

/-- A node stands at the end of a way from the top. -/
inductive StandsAt : List WalkNode → List Nat → WalkNode → Prop where
  | here {nodes : List WalkNode} {i : Nat} {n : WalkNode} (side : nodes[i]? = some n) :
      StandsAt nodes [i] n
  | deeper {nodes : List WalkNode} {i : Nat} {m n : WalkNode} {way : List Nat}
      (side : nodes[i]? = some m) (inner : StandsAt m.below way n) : StandsAt nodes (i :: way) n

structure Place where
  way : List Nat
  node : WalkNode

/-- The same place seen from one level up, below the node that has `i` before it. -/
def Place.under (i : Nat) (p : Place) : Place :=
  ⟨i :: p.way, p.node⟩

/-- The way to one place begins with the way to another, above it. -/
def Place.Above (p p' : Place) : Prop :=
  ∃ on, on ≠ [] ∧ p'.way = p.way ++ on

/-- The places of nodes that stand side by side, counted from `i`, and of what stands below them;
below a node only where it is to be gone on from it. -/
def placesFrom (goesOn : WalkNode → Bool) (i : Nat) : List WalkNode → List Place
  | [] => []
  | n :: rest =>
    ⟨[i], n⟩ :: (if goesOn n then (placesFrom goesOn 0 n.below).map (.under i) else [])
      ++ placesFrom goesOn (i + 1) rest
termination_by nodes => (nodes.map sizeOf).sum
decreasing_by
  · have hbelow := n.sum_sizeOf_below_lt
    simp only [List.map_cons, List.sum_cons]
    omega
  · have hpos : 0 < sizeOf n := Nat.zero_lt_of_lt n.sum_sizeOf_below_lt
    simp only [List.map_cons, List.sum_cons]
    omega

def Document.places (d : Document) : List Place :=
  placesFrom (fun _ => true) 0 d.nodes

/-- The places that a walk comes to which does not go on below some nodes. -/
def Document.placesMet (d : Document) (goesOn : WalkNode → Bool) : List Place :=
  placesFrom goesOn 0 d.nodes

section

variable {goesOn : WalkNode → Bool} {i : Nat} {nodes : List WalkNode}

theorem mem_placesFrom_cons_iff {n : WalkNode} {rest : List WalkNode} {p : Place} :
    p ∈ placesFrom goesOn i (n :: rest) ↔
      p = ⟨[i], n⟩ ∨ (goesOn n = true ∧ ∃ q ∈ placesFrom goesOn 0 n.below, q.under i = p) ∨
        p ∈ placesFrom goesOn (i + 1) rest := by
  rw [placesFrom]
  by_cases hon : goesOn n = true <;> simp [hon]

theorem exists_way_eq {p : Place} (h : p ∈ placesFrom goesOn i nodes) :
    ∃ j way, i ≤ j ∧ p.way = j :: way := by
  induction nodes generalizing i with
  | nil => simp [placesFrom] at h
  | cons n rest ih =>
    rcases mem_placesFrom_cons_iff.mp h with rfl | ⟨_, q, _, rfl⟩ | hrest
    · exact ⟨i, [], Nat.le_refl i, rfl⟩
    · exact ⟨i, q.way, Nat.le_refl i, rfl⟩
    · obtain ⟨j, way, hj, hway⟩ := ih hrest
      exact ⟨j, way, Nat.le_of_succ_le hj, hway⟩

theorem pairwise_placesFrom : (placesFrom goesOn i nodes).Pairwise (·.way < ·.way) := by
  fun_induction placesFrom goesOn i nodes with
  | case1 i => exact .nil
  | case2 i n rest inner ih =>
    -- Three kinds of ways, each before the next: `[i]`, longer ones that begin with `i`, and those
    -- that begin with more.
    let inside : List Place :=
      if goesOn n then (placesFrom goesOn 0 n.below).map (.under i) else []
    have hinside : inside.Pairwise (·.way < ·.way) := by
      unfold inside
      split
      · apply List.pairwise_map.mpr
        apply inner.imp
        intro p q hpq
        exact List.cons_lt_cons_iff.mpr (.inr ⟨rfl, hpq⟩)
      · exact .nil
    have hunder : ∀ p ∈ inside, ∃ j way, p.way = i :: j :: way := by
      intro p hp
      unfold inside at hp
      split at hp
      · obtain ⟨q, hq, rfl⟩ := List.mem_map.mp hp
        obtain ⟨j, way, _, hway⟩ := exists_way_eq hq
        exact ⟨j, way, congrArg (i :: ·) hway⟩
      · cases hp
    have hlater : ∀ p ∈ placesFrom goesOn (i + 1) rest, ∀ way : List Nat, i :: way < p.way := by
      intro p hp way
      obtain ⟨j, on, hj, hway⟩ := exists_way_eq hp
      rw [hway, List.cons_lt_cons_iff]
      exact .inl hj
    rw [List.cons_append, List.pairwise_cons, List.pairwise_append]
    refine ⟨?_, hinside, ih, ?_⟩
    · intro p hp
      rcases List.mem_append.mp hp with hp | hp
      · obtain ⟨j, way, hway⟩ := hunder p hp
        rw [hway, List.cons_lt_cons_iff]
        exact .inr ⟨rfl, List.nil_lt_cons j way⟩
      · exact hlater p hp []
    · intro p hp q hq
      obtain ⟨j, way, hway⟩ := hunder p hp
      rw [hway]
      exact hlater q hq (j :: way)

theorem StandsAt.exists_cons {way : List Nat} {m : WalkNode} (h : StandsAt nodes way m) :
    ∃ j on, way = j :: on := by
  cases h with
  | here _ => exact ⟨_, _, rfl⟩
  | deeper _ _ => exact ⟨_, _, rfl⟩

theorem standsAt_cons_zero_iff {n m : WalkNode} {rest : List WalkNode} {way : List Nat} :
    StandsAt (n :: rest) (0 :: way) m ↔ way = [] ∧ m = n ∨ StandsAt n.below way m := by
  constructor
  · intro h
    cases h with
    | here side => exact .inl ⟨rfl, (Option.some.inj side).symm⟩
    | deeper side inner =>
      obtain rfl := Option.some.inj side
      exact .inr inner
  · intro h
    rcases h with ⟨rfl, rfl⟩ | inner
    · exact .here rfl
    · exact .deeper rfl inner

theorem standsAt_cons_succ_iff {n m : WalkNode} {rest : List WalkNode} {j : Nat}
    {way : List Nat} : StandsAt (n :: rest) ((j + 1) :: way) m ↔ StandsAt rest (j :: way) m := by
  constructor
  · intro h
    cases h with
    | here side => exact .here side
    | deeper side inner => exact .deeper side inner
  · intro h
    cases h with
    | here side => exact .here side
    | deeper side inner => exact .deeper side inner

/-- Where a walk goes on everywhere, the places are those of all nodes that stand somewhere. -/
theorem mem_placesFrom_iff {p : Place} :
    p ∈ placesFrom (fun _ => true) i nodes ↔
      ∃ j way, p.way = (i + j) :: way ∧ StandsAt nodes (j :: way) p.node := by
  induction i, nodes using placesFrom.induct generalizing p with
  | case1 i =>
    simp only [placesFrom, List.not_mem_nil, false_iff]
    rintro ⟨j, way, _, h⟩
    cases h <;> simp_all
  | case2 i n rest inner ih =>
    rw [mem_placesFrom_cons_iff, ih]
    constructor
    · intro h
      rcases h with rfl | ⟨_, q, hq, rfl⟩ | ⟨j, way, hway, hstands⟩
      · exact ⟨0, [], rfl, .here rfl⟩
      · obtain ⟨j, way, hway, hstands⟩ := inner.mp hq
        rw [Nat.zero_add] at hway
        exact ⟨0, q.way, rfl, .deeper rfl (hway ▸ hstands)⟩
      · exact ⟨j + 1, way, by rw [hway]; congr 1; omega, standsAt_cons_succ_iff.mpr hstands⟩
    · intro h
      obtain ⟨way, node⟩ := p
      obtain ⟨j, on, rfl, hstands⟩ := h
      cases j with
      | zero =>
        rcases standsAt_cons_zero_iff.mp hstands with ⟨rfl, rfl⟩ | hbelow
        · exact .inl rfl
        · obtain ⟨k, on, rfl⟩ := hbelow.exists_cons
          refine .inr (.inl ⟨rfl, ⟨k :: on, node⟩, inner.mpr ⟨k, on, ?_, hbelow⟩, rfl⟩)
          rw [Nat.zero_add]
      | succ j =>
        have hcount : i + (j + 1) = i + 1 + j := by omega
        exact .inr (.inr ⟨j, on, congrArg (· :: on) hcount, standsAt_cons_succ_iff.mp hstands⟩)

theorem Place.above_under_iff {p q : Place} : (p.under i).Above (q.under i) ↔ p.Above q := by
  simp [Above, under]

theorem Place.not_above_of_ne {p q : Place} {j k : Nat} {way on : List Nat} (hp : p.way = j :: way)
    (hq : q.way = k :: on) (hne : j ≠ k) : ¬ p.Above q := by
  rintro ⟨rest, _, hway⟩
  rw [hp, hq] at hway
  exact hne (List.cons.inj hway).1.symm

theorem Place.not_above_of_single {p q : Place} {j k : Nat} {way : List Nat} (hp : p.way = j :: way)
    (hq : q.way = [k]) : ¬ p.Above q := by
  rintro ⟨rest, hrest, hway⟩
  rw [hp, hq] at hway
  simp_all

theorem under_mem_placesFrom_iff {n : WalkNode} {rest : List WalkNode} {q : Place}
    (hq : q.way ≠ []) :
    q.under i ∈ placesFrom goesOn i (n :: rest) ↔
      goesOn n = true ∧ q ∈ placesFrom goesOn 0 n.below := by
  rw [mem_placesFrom_cons_iff]
  constructor
  · intro h
    rcases h with h | ⟨hon, q', hq', h⟩ | h
    · exact absurd (List.cons.inj (congrArg Place.way h)).2 hq
    · obtain ⟨way, node⟩ := q
      obtain ⟨way', node'⟩ := q'
      simp only [Place.under, Place.mk.injEq, List.cons.injEq, true_and] at h
      obtain ⟨rfl, rfl⟩ := h
      exact ⟨hon, hq'⟩
    · obtain ⟨j, on, hj, hway⟩ := exists_way_eq h
      obtain ⟨rfl, _⟩ := List.cons.inj hway
      exact absurd hj (Nat.not_succ_le_self i)
  · intro h
    exact .inr (.inl ⟨h.1, q, h.2, rfl⟩)

theorem mem_placesFrom_iff_of_lt {n : WalkNode} {rest : List WalkNode} {p : Place} {j : Nat}
    {way : List Nat} (hp : p.way = j :: way) (hj : i < j) :
    p ∈ placesFrom goesOn i (n :: rest) ↔ p ∈ placesFrom goesOn (i + 1) rest := by
  have hne : ¬ i = j := Nat.ne_of_lt hj
  rw [mem_placesFrom_cons_iff]
  constructor
  · intro h
    rcases h with rfl | ⟨_, q, _, rfl⟩ | h
    · exact absurd (List.cons.inj hp).1 hne
    · exact absurd (List.cons.inj hp).1 hne
    · exact h
  · intro h
    exact .inr (.inr h)

/-- One of the places that a walk comes to is above, and the walk does not go on from it. -/
def CutOff (goesOn : WalkNode → Bool) (met : List Place) (p : Place) : Prop :=
  ∃ above ∈ met, goesOn above.node = false ∧ above.Above p

theorem cutOff_under_iff {n : WalkNode} {rest : List WalkNode} {q : Place} (hq : q.way ≠ []) :
    CutOff goesOn (placesFrom goesOn i (n :: rest)) (q.under i) ↔
      goesOn n = false ∨ CutOff goesOn (placesFrom goesOn 0 n.below) q := by
  constructor
  · rintro ⟨above, hmem, hstop, habove⟩
    rcases mem_placesFrom_cons_iff.mp hmem with rfl | ⟨_, above, hinner, rfl⟩ | hrest
    · exact .inl hstop
    · exact .inr ⟨above, hinner, hstop, Place.above_under_iff.mp habove⟩
    · obtain ⟨j, way, hj, hway⟩ := exists_way_eq hrest
      exact absurd habove (Place.not_above_of_ne hway rfl (Nat.ne_of_gt hj))
  · intro h
    cases hon : goesOn n with
    | false => exact ⟨⟨[i], n⟩, mem_placesFrom_cons_iff.mpr (.inl rfl), hon, q.way, hq, rfl⟩
    | true =>
      rcases h with hoff | ⟨above, hmem, hstop, habove⟩
      · exact absurd (hon.symm.trans hoff) (by decide)
      · exact ⟨above.under i, mem_placesFrom_cons_iff.mpr (.inr (.inl ⟨hon, above, hmem, rfl⟩)),
          hstop, Place.above_under_iff.mpr habove⟩

theorem cutOff_iff_of_lt {n : WalkNode} {rest : List WalkNode} {p : Place} {j : Nat}
    {way : List Nat} (hp : p.way = j :: way) (hj : i < j) :
    CutOff goesOn (placesFrom goesOn i (n :: rest)) p ↔
      CutOff goesOn (placesFrom goesOn (i + 1) rest) p := by
  have hne : i ≠ j := Nat.ne_of_lt hj
  constructor
  · rintro ⟨above, hmem, hstop, habove⟩
    rcases mem_placesFrom_cons_iff.mp hmem with rfl | ⟨_, above, _, rfl⟩ | hrest
    · exact absurd habove (Place.not_above_of_ne rfl hp hne)
    · exact absurd habove (Place.not_above_of_ne rfl hp hne)
    · exact ⟨above, hrest, hstop, habove⟩
  · rintro ⟨above, hmem, hstop, habove⟩
    exact ⟨above, mem_placesFrom_cons_iff.mpr (.inr (.inr hmem)), hstop, habove⟩

/-- Some of the places: all but those that are cut off. -/
structure LeavesOut (goesOn : WalkNode → Bool) (places met : List Place) : Prop where
  sublist : met.Sublist places
  leftOut : ∀ p ∈ places, p ∉ met ↔ CutOff goesOn met p

theorem leavesOut_placesFrom (goesOn : WalkNode → Bool) (i : Nat) (nodes : List WalkNode) :
    LeavesOut goesOn (placesFrom (fun _ => true) i nodes) (placesFrom goesOn i nodes) := by
  induction i, nodes using placesFrom.induct with
  | case1 i => exact ⟨by simp [placesFrom], by simp [placesFrom]⟩
  | case2 i n rest inner ih =>
    refine ⟨?_, ?_⟩
    · have hinside : (if goesOn n then (placesFrom goesOn 0 n.below).map (Place.under i)
          else []).Sublist ((placesFrom (fun _ => true) 0 n.below).map (Place.under i)) := by
        split
        · exact inner.sublist.map _
        · exact List.nil_sublist _
      rw [placesFrom, placesFrom, if_pos rfl]
      exact (hinside.cons_cons _).append ih.sublist
    · intro p hp
      rcases mem_placesFrom_cons_iff.mp hp with rfl | ⟨_, q, hq, rfl⟩ | hrest
      · -- Nothing is above the first node, and a walk always comes to it.
        refine iff_of_false (fun hnot => hnot (mem_placesFrom_cons_iff.mpr (.inl rfl))) ?_
        rintro ⟨above, hmem, _, habove⟩
        obtain ⟨j, way, _, hway⟩ := exists_way_eq hmem
        exact Place.not_above_of_single hway rfl habove
      · -- Below the first node it is the walk there that tells, unless there is none.
        obtain ⟨j, on, _, hway⟩ := exists_way_eq hq
        have hne : q.way ≠ [] := by simp [hway]
        rw [under_mem_placesFrom_iff hne, cutOff_under_iff hne, ← inner.leftOut q hq,
          Classical.not_and_iff_not_or_not, Bool.not_eq_true]
      · obtain ⟨j, way, hj, hway⟩ := exists_way_eq hrest
        rw [mem_placesFrom_iff_of_lt hway hj, cutOff_iff_of_lt hway hj]
        exact ih.leftOut p hrest

end

end QueryShaping
