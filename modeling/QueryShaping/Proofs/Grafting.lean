import Mathlib.Data.List.Infix
import QueryShaping.Graft.Document

namespace QueryShaping

theorem fieldNames_growField (name : Name) (grow : List Selection → List Selection)
    (base : List Selection) : fieldNames (growField name grow base) = fieldNames base := by
  induction base with
  | nil => rfl
  | cons s rest ih =>
    cases s with
    | field head children =>
      simp only [growField]
      split
      · rfl
      · simpa [fieldNames, Selection.fieldName?] using ih
    | spread fragment directives => exact ih
    | inline condition directives children => exact ih

theorem fieldNames_prefix_append (base added : List Selection) :
    fieldNames base <+: fieldNames (base ++ added) := by
  simp [fieldNames]

theorem fieldNames_prefix_mergeSelection (base : List Selection) (s : Selection) :
    fieldNames base <+: fieldNames (mergeSelection base s) := by
  cases s with
  | field head children =>
    rw [mergeSelection]
    split
    · rw [fieldNames_growField]
    · exact fieldNames_prefix_append _ _
  | spread fragment directives =>
    rw [mergeSelection]
    split
    · exact List.prefix_refl _
    · exact fieldNames_prefix_append _ _
  | inline condition directives children =>
    rw [mergeSelection]
    exact fieldNames_prefix_append _ _

theorem fieldNames_prefix_mergeSelections (base added : List Selection) :
    fieldNames base <+: fieldNames (mergeSelections base added) := by
  induction added generalizing base with
  | nil =>
    rw [mergeSelections]
  | cons s rest ih =>
    rw [mergeSelections]
    exact (fieldNames_prefix_mergeSelection base s).trans (ih _)

namespace Operation

def grow (op : Operation) (added : List Selection) : Operation :=
  { op with selections := mergeSelections op.selections added }

/-- The operation with the selections of others merged into its own, one after the other. -/
def growBy (op : Operation) (others : List Operation) : Operation :=
  { op with selections := (others.map (·.selections)).foldl mergeSelections op.selections }

theorem rootName?_grow {op : Operation} {root : Name} (h : op.rootName? = some root)
    (added : List Selection) : (op.grow added).rootName? = some root := by
  obtain ⟨rest, hnames⟩ := List.head?_eq_some_iff.mp h
  obtain ⟨more, hmore⟩ := fieldNames_prefix_mergeSelections op.selections added
  rw [rootName?, grow, ← hmore, hnames]
  rfl

theorem growBy_cons (op e : Operation) (others : List Operation) :
    op.growBy (e :: others) = (op.grow e.selections).growBy others := rfl

end Operation

/-- Where the first operation with a root name stands. -/
def targetOf (ops : List Operation) (root : Name) : Option Nat :=
  ops.findIdx? fun op => op.rootName? == some root

theorem targetOf_eq_of_roots {ops ops' : List Operation} {root : Name}
    (h : ops.map (·.rootName?) = ops'.map (·.rootName?)) :
    targetOf ops root = targetOf ops' root := by
  have hmap : ∀ l : List Operation,
      targetOf l root = (l.map (·.rootName?)).findIdx? (· == some root) := by
    intro l
    rw [targetOf, List.findIdx?_map]
    rfl
  rw [hmap, hmap, h]

theorem rootNames_eq_of_roots {ops ops' : List Operation}
    (h : ops.map (·.rootName?) = ops'.map (·.rootName?)) : rootNames ops = rootNames ops' := by
  have hmap : ∀ l : List Operation, rootNames l = (l.map (·.rootName?)).filterMap id := by
    intro l
    rw [rootNames, List.filterMap_map]
    rfl
  rw [hmap, hmap, h]

theorem mergeIntoRoot?_eq (root : Name) (added : List Selection) (ops : List Operation) :
    mergeIntoRoot? root added ops =
      (targetOf ops root).map fun k => ops.modify k (·.grow added) := by
  induction ops with
  | nil => rfl
  | cons op rest ih =>
    rw [mergeIntoRoot?, targetOf, List.findIdx?_cons]
    split
    · rfl
    · rw [ih, targetOf, Option.map_map, Option.map_map]
      rfl

theorem roots_mergeIntoRoot? {root : Name} {added : List Selection} {ops merged : List Operation}
    (h : mergeIntoRoot? root added ops = some merged) :
    merged.map (·.rootName?) = ops.map (·.rootName?) := by
  induction ops generalizing merged with
  | nil => cases h
  | cons op rest ih =>
    rw [mergeIntoRoot?] at h
    split at h
    · rename_i hroot
      cases h
      have hsame := Operation.rootName?_grow (by simpa using hroot) added
      rw [Operation.grow] at hsame
      simp [hsame, (by simpa using hroot : op.rootName? = some root)]
    · obtain ⟨tail, htail, rfl⟩ := Option.map_eq_some_iff.mp h
      simp [ih htail]

theorem roots_mergeOperations {expected : List Name} {ops es merged : List Operation}
    (h : mergeOperations expected ops es = .ok merged) :
    merged.map (·.rootName?) = ops.map (·.rootName?) := by
  induction es generalizing ops with
  | nil =>
    cases h
    rfl
  | cons e rest ih =>
    rw [mergeOperations] at h
    split at h
    · cases h
    · rename_i next hnext
      obtain ⟨root, _, hmerge⟩ := Option.bind_eq_some_iff.mp hnext
      rw [ih h, roots_mergeIntoRoot? hmerge]

/-- Whether an operation of an extension goes to the operation at a position. -/
def aimsAt (ops : List Operation) (k : Nat) (e : Operation) : Bool :=
  e.rootName?.bind (targetOf ops) == some k

theorem getElem?_mergeIntoRoot? {root : Name} {e : Operation} {ops merged : List Operation}
    (he : e.rootName? = some root) (h : mergeIntoRoot? root e.selections ops = some merged)
    (k : Nat) :
    merged[k]? = ops[k]?.map fun op => if aimsAt ops k e then op.grow e.selections else op := by
  rw [mergeIntoRoot?_eq] at h
  obtain ⟨target, htarget, rfl⟩ := Option.map_eq_some_iff.mp h
  have haims : aimsAt ops k e = (target == k) := by simp [aimsAt, he, htarget]
  rw [List.getElem?_modify, haims]
  by_cases hk : target = k
  · simp [hk]
  · simp [hk]

/-- In a run of merges every operation takes in exactly those aimed at it, in their order. -/
theorem getElem?_mergeOperations {expected : List Name} {ops es merged : List Operation}
    (h : mergeOperations expected ops es = .ok merged) (k : Nat) :
    merged[k]? = ops[k]?.map (·.growBy (es.filter (aimsAt ops k))) := by
  induction es generalizing ops with
  | nil =>
    cases h
    simp [Operation.growBy]
  | cons e rest ih =>
    rw [mergeOperations] at h
    split at h
    · cases h
    · rename_i next hnext
      obtain ⟨root, he, hmerge⟩ := Option.bind_eq_some_iff.mp hnext
      have haims : aimsAt next k = aimsAt ops k := by
        funext x
        have hroots : targetOf next = targetOf ops := by
          funext root
          exact targetOf_eq_of_roots (roots_mergeIntoRoot? hmerge)
        rw [aimsAt, aimsAt, hroots]
      rw [ih h, getElem?_mergeIntoRoot? he hmerge, haims, Option.map_map, List.filter_cons]
      by_cases hk : aimsAt ops k e = true
      · simp [hk, Function.comp_def, Operation.growBy_cons]
      · simp [hk, Function.comp_def]

/-- An operation is the first with its root name: it has one, and none before it has the same. -/
def Operation.IsTarget (before : List Operation) (op : Operation) : Prop :=
  ∃ root, op.rootName? = some root ∧ ∀ o ∈ before, o.rootName? ≠ some root

theorem targetOf_eq_some_iff {before after : List Operation} {op : Operation} {root : Name} :
    targetOf (before ++ op :: after) root = some before.length ↔
      op.rootName? = some root ∧ ∀ o ∈ before, o.rootName? ≠ some root := by
  rw [targetOf, List.findIdx?_eq_some_iff_getElem]
  constructor
  · intro h
    obtain ⟨_, hhere, hbefore⟩ := h
    refine ⟨by simpa using hhere, ?_⟩
    intro o ho hroot
    obtain ⟨j, hj, rfl⟩ := List.getElem_of_mem ho
    exact hbefore j hj (by simpa [List.getElem_append_left hj] using hroot)
  · intro h
    obtain ⟨hroot, hbefore⟩ := h
    refine ⟨by simp, by simpa using hroot, ?_⟩
    intro j hj hsame
    refine hbefore before[j] (List.getElem_mem hj) ?_
    simpa [List.getElem_append_left hj] using hsame

theorem aimsAt_of_isTarget {before after : List Operation} {op : Operation}
    (h : op.IsTarget before) :
    aimsAt (before ++ op :: after) before.length = fun e => e.rootName? == op.rootName? := by
  obtain ⟨root, hroot, hfirst⟩ := h
  funext e
  rw [Bool.eq_iff_iff, aimsAt, beq_iff_eq, beq_iff_eq, Option.bind_eq_some_iff, hroot]
  simp only [targetOf_eq_some_iff, hroot, Option.some.injEq]
  constructor
  · intro haims
    obtain ⟨root', he, rfl, _⟩ := haims
    exact he
  · intro he
    exact ⟨root, he, rfl, hfirst⟩

theorem aimsAt_of_not_isTarget {before after : List Operation} {op : Operation}
    (h : ¬ op.IsTarget before) (e : Operation) :
    aimsAt (before ++ op :: after) before.length e = false := by
  rw [← Bool.not_eq_true, aimsAt, beq_iff_eq, Option.bind_eq_some_iff]
  intro haims
  obtain ⟨root, _, htarget⟩ := haims
  exact h ⟨root, targetOf_eq_some_iff.mp htarget⟩

namespace Definition

def isOperation : Definition → Bool
  | .operation _ => true
  | _ => false

def isFragment : Definition → Bool
  | .fragment _ => true
  | _ => false

/-- Neither an operation nor a fragment definition. -/
def isOther (x : Definition) : Bool :=
  !x.isOperation && !x.isFragment

end Definition

namespace Document

theorem filter_eq_map_filterMap {α : Type} {p : Definition → Bool} {part? : Definition → Option α}
    {whole : α → Definition} (h : ∀ x, (part? x).map whole = if p x then some x else none)
    (definitions : List Definition) :
    definitions.filter p = (definitions.filterMap part?).map whole := by
  rw [List.map_filterMap, ← List.filterMap_eq_filter]
  apply List.filterMap_congr
  intro x _
  rw [h, Option.guard]

theorem filter_isOperation (d : Document) :
    d.definitions.filter (·.isOperation) = d.operations.map .operation :=
  filter_eq_map_filterMap (fun x => by cases x <;> rfl) d.definitions

theorem filter_isFragment (d : Document) :
    d.definitions.filter (·.isFragment) = d.fragments.map .fragment :=
  filter_eq_map_filterMap (fun x => by cases x <;> rfl) d.definitions

theorem filter_isOther (d : Document) :
    d.definitions.filter (·.isOther) = d.typeSystem.map .typeSystem :=
  filter_eq_map_filterMap (fun x => by cases x <;> rfl) d.definitions

theorem filter_not_isOperation_perm (definitions : List Definition) :
    (definitions.filter (!·.isOperation)).Perm
      (definitions.filter (·.isFragment) ++ definitions.filter (·.isOther)) := by
  have hfragments : (definitions.filter (!·.isOperation)).filter (·.isFragment) =
      definitions.filter (·.isFragment) := by
    rw [List.filter_filter]
    apply List.filter_congr
    intro x _
    cases x <;> rfl
  have hothers : (definitions.filter (!·.isOperation)).filter (!·.isFragment) =
      definitions.filter (·.isOther) := by
    rw [List.filter_filter]
    apply List.filter_congr
    intro x _
    cases x <;> rfl
  rw [← hfragments, ← hothers]
  exact (List.filter_append_perm Definition.isFragment _).symm

theorem operations_assemble (ops : List Operation) (base extension : Document) :
    (assemble ops base extension).operations = ops := by
  simp [assemble, operations, Definition.operation?, List.filterMap_map, Function.comp_def]

theorem fragments_assemble (ops : List Operation) (base extension : Document) :
    (assemble ops base extension).fragments = base.fragments ++ extension.fragments := by
  simp [assemble, fragments, Definition.fragment?, List.filterMap_map, Function.comp_def]

theorem typeSystem_assemble (ops : List Operation) (base extension : Document) :
    (assemble ops base extension).typeSystem = base.typeSystem ++ extension.typeSystem := by
  simp [assemble, typeSystem, Definition.typeSystem?, List.filterMap_map, Function.comp_def]

theorem graft_eq_ok_iff {base extension d : Document} :
    base.graft extension = .ok d ↔
      ∃ ops, mergeOperations (rootNames base.operations) base.operations extension.operations =
        .ok ops ∧ d = assemble ops base extension := by
  unfold graft
  cases mergeOperations (rootNames base.operations) base.operations extension.operations with
  | error e => simp
  | ok ops => simp [eq_comm]

theorem definitions_assemble (ops : List Operation) (base extension : Document) :
    (assemble ops base extension).definitions = ops.map .operation
      ++ base.definitions.filter (·.isFragment) ++ extension.definitions.filter (·.isFragment)
      ++ base.definitions.filter (·.isOther) ++ extension.definitions.filter (·.isOther) := by
  simp [assemble, filter_isFragment, filter_isOther]

theorem definitions_assemble_perm (ops : List Operation) (base extension : Document) :
    (assemble ops base extension).definitions.Perm
      (ops.map .operation
        ++ (base.definitions ++ extension.definitions).filter (!·.isOperation)) := by
  have hgroups : (base.definitions ++ extension.definitions).filter (·.isFragment) ++
      (base.definitions ++ extension.definitions).filter (·.isOther) =
        base.definitions.filter (·.isFragment) ++ extension.definitions.filter (·.isFragment)
          ++ base.definitions.filter (·.isOther) ++ extension.definitions.filter (·.isOther) := by
    simp only [List.filter_append, List.append_assoc]
  have hperm := filter_not_isOperation_perm (base.definitions ++ extension.definitions)
  rw [hgroups] at hperm
  rw [definitions_assemble]
  simpa only [List.append_assoc] using hperm.symm.append_left (ops.map .operation)

theorem getElem?_mergeOperations_at {expected : List Name} {before after es merged : List Operation}
    {op : Operation} (h : mergeOperations expected (before ++ op :: after) es = .ok merged) :
    (op.IsTarget before → merged[before.length]? =
        some (op.growBy (es.filter fun e => e.rootName? == op.rootName?))) ∧
      (¬ op.IsTarget before → merged[before.length]? = some op) := by
  have hop : (before ++ op :: after)[before.length]? = some op := by simp
  rw [getElem?_mergeOperations h, hop]
  constructor
  · intro htarget
    rw [aimsAt_of_isTarget htarget]
    rfl
  · intro hother
    rw [List.filter_eq_nil_iff.mpr (by simp [aimsAt_of_not_isTarget hother])]
    rfl

/-- The result of a graft that succeeds. The operations of the base come first, as many as there
are, then the fragment definitions of the base and of the extension, then all other definitions of
the base and of the extension, every group in its order and unchanged but for the operations: side
by side with these, the rest of both documents is there, nothing lost and nothing twice. An
operation that is the first with its root name has merged into its selections those of the
operations of the extension with that root name, one after the other; any other operation is as it
was. -/
theorem definitions_of_graft {base extension d : Document}
    (grafted : base.graft extension = .ok d) :
    ∃ given added ops : List Operation,
      base.definitions.filter (·.isOperation) = given.map .operation ∧
      extension.definitions.filter (·.isOperation) = added.map .operation ∧
      d.definitions = ops.map .operation
        ++ base.definitions.filter (·.isFragment) ++ extension.definitions.filter (·.isFragment)
        ++ base.definitions.filter (·.isOther) ++ extension.definitions.filter (·.isOther) ∧
      d.definitions.Perm (ops.map .operation
        ++ (base.definitions ++ extension.definitions).filter (!·.isOperation)) ∧
      ops.length = given.length ∧
      ∀ before op after, given = before ++ op :: after →
        (op.IsTarget before → ops[before.length]? =
          some (op.growBy (added.filter fun e => e.rootName? == op.rootName?))) ∧
        (¬ op.IsTarget before → ops[before.length]? = some op) := by
  obtain ⟨ops, hops, rfl⟩ := graft_eq_ok_iff.mp grafted
  refine ⟨base.operations, extension.operations, ops, base.filter_isOperation,
    extension.filter_isOperation, definitions_assemble ops base extension,
    definitions_assemble_perm ops base extension, ?_, ?_⟩
  · simpa using congrArg List.length (roots_mergeOperations hops)
  · intro before op after hgiven
    rw [hgiven] at hops
    exact getElem?_mergeOperations_at hops

end Document

def rootQuery (name : Option Name) (root : Name) (leaves : List Name) : Operation :=
  ⟨.query, name, [], [], [.field ⟨none, root, [], []⟩ (leaves.map .leaf)]⟩

def scalar (name : Name) : Definition :=
  .typeSystem (.item none (.scalar name []))

/-- Two operations with one root name, and an extension with two for it: the first takes in both,
the second none. The fragment definitions of one name stand side by side, then the scalars of both
documents. -/
theorem definitions_of_graft_shared_root :
    let first := rootQuery (some "First") "product" ["id"]
    let second := rootQuery (some "Second") "product" ["sku"]
    let card : Fragment := ⟨"Card", "Product", [], [.leaf "id"]⟩
    let otherCard : Fragment := ⟨"Card", "Product", [], [.leaf "sku"]⟩
    let base : Document := ⟨[scalar "Money", .fragment card, .operation first, .operation second]⟩
    let extension : Document := ⟨[.operation (rootQuery none "product" ["name"]), scalar "Date",
      .fragment otherCard, .operation (rootQuery none "product" ["id", "slug"])]⟩
    ∃ d, base.graft extension = .ok d ∧
      d.definitions = [.operation (rootQuery (some "First") "product" ["id", "name", "slug"]),
        .operation second, .fragment card, .fragment otherCard, scalar "Money", scalar "Date"] := by
  intro first second card otherCard base extension
  obtain ⟨d, hd⟩ : ∃ d, base.graft extension = .ok d := ⟨_, rfl⟩
  obtain ⟨given, added, ops, hgiven, hadded, hdefinitions, _, hlength, hops⟩ :=
    Document.definitions_of_graft hd
  have hmap : Function.Injective (List.map Definition.operation) :=
    List.map_injective_iff.mpr fun _ _ => Definition.operation.inj
  obtain rfl : [first, second] = given := hmap hgiven
  obtain rfl :
      [rootQuery none "product" ["name"], rootQuery none "product" ["id", "slug"]] = added :=
    hmap hadded
  have hfirst : first.IsTarget [] := ⟨"product", rfl, by simp⟩
  have hsecond : ¬ second.IsTarget [first] := by
    intro h
    obtain ⟨root, hroot, hnew⟩ := h
    cases hroot
    exact hnew first List.mem_cons_self rfl
  have hgrown : ops[0]? = some (rootQuery (some "First") "product" ["id", "name", "slug"]) :=
    (hops [] first [second] rfl).1 hfirst
  have hsame : ops[1]? = some second := (hops [first] second [] rfl).2 hsecond
  have hboth : ops = [rootQuery (some "First") "product" ["id", "name", "slug"], second] := by
    match ops, hlength with
    | [one, two], _ =>
      cases hgrown
      cases hsame
      rfl
  subst hboth
  exact ⟨d, hd, hdefinitions⟩

end QueryShaping
