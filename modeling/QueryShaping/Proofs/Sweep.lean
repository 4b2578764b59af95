import QueryShaping.Proofs.Searching
import QueryShaping.Sweep

namespace QueryShaping

def WalkNode.searchStep? : WalkNode → Option SearchStep
  | .selection (.spread fragment _) => some (.enter fragment)
  | .value (.var name) => some (.find name)
  | _ => none

namespace WalkNode

variable {n : WalkNode} {name : Name}

theorem searchStep?_eq_enter_iff :
    n.searchStep? = some (.enter name) ↔ n.spreadName? = some name := by
  rcases n with (_ | _ | _) | (_ | _ | _ | _ | _ | _ | _ | _ | _) <;>
    simp [searchStep?, spreadName?, Selection.spreadName?]

theorem searchStep?_eq_find_iff :
    n.searchStep? = some (.find name) ↔ n.variableName? = some name := by
  rcases n with (_ | _ | _) | (_ | _ | _ | _ | _ | _ | _ | _ | _) <;>
    simp [searchStep?, variableName?]

end WalkNode

/-- What a search for variables does in a definition with these directives and selections. -/
def searchStepsOf (directives : List Directive) (set : List Selection) : List SearchStep :=
  (nodesThrough ((directiveValues directives).map .value ++ set.map .selection)).filterMap
    WalkNode.searchStep?

def Operation.searchSteps (op : Operation) : List SearchStep :=
  searchStepsOf op.directives op.selections

def Fragment.searchSteps (f : Fragment) : List SearchStep :=
  searchStepsOf f.directives f.selections

section

variable {directives : List Directive} {set : List Selection} {name : Name}

theorem enter_mem_searchStepsOf_iff :
    .enter name ∈ searchStepsOf directives set ↔
      ∃ s, Within s set ∧ s.spreadName? = some name := by
  simp only [searchStepsOf, List.mem_filterMap, WalkNode.searchStep?_eq_enter_iff]
  exact spread_mem_nodesThrough_iff

theorem find_mem_searchStepsOf_iff :
    .find name ∈ searchStepsOf directives set ↔
      HeldByDirectives name directives ∨ ∃ s, Within s set ∧ s.Carries name := by
  simp only [searchStepsOf, List.mem_filterMap, WalkNode.searchStep?_eq_find_iff]
  exact variable_mem_nodesThrough_iff

end

namespace Walker

variable {enter : Search → Name → Search} {s : Search}

theorem picks_variableFinder :
    (variableFinder enter).Picks WalkNode.searchStep? (Search.take enter) := by
  intro s n
  rcases n with (_ | _ | _) | (_ | _ | _ | _ | _ | _ | _ | _ | _) <;> rfl

theorem variableFinder_walkOperation (op : Operation) :
    (variableFinder enter).walkOperation s op = op.searchSteps.foldl (Search.take enter) s := by
  rw [walkOperation_eq, picks_variableFinder.foldl_nodesThrough]
  rfl

theorem variableFinder_walkFragment (f : Fragment) :
    (variableFinder enter).walkFragment s f = f.searchSteps.foldl (Search.take enter) s := by
  rw [walkFragment_eq, picks_variableFinder.foldl_nodesThrough]
  rfl

theorem takes_variableFinder :
    FragmentGroups.Takes (fun enter => (variableFinder enter).walkFragment)
      Fragment.searchSteps :=
  fun _ _ f => variableFinder_walkFragment f

end Walker

/-- The definitions of a spread are walked through the first time its name is met. -/
theorem FragmentGroups.enterForVariables_eq (groups : FragmentGroups) (s : Search) (name : Name) :
    groups.enterForVariables s name =
      if name ∈ s.entered then s
      else (groups.get name).foldl (Walker.variableFinder groups.enterForVariables).walkFragment
        { s with entered := name :: s.entered } :=
  enter_eq Walker.takes_variableFinder groups s name

namespace Document

/-- A name is spread in some operation, or in a definition of a reachable name. -/
def Reachable (d : Document) (name : Name) : Prop :=
  Reached Fragment.LeadsTo d.fragments (fun n => ∃ op ∈ d.operations, op.LeadsTo n) name

/-- A name is spread in an operation, or in a definition of a name reachable from it. -/
def ReachableFrom (d : Document) (op : Operation) (name : Name) : Prop :=
  Reached Fragment.LeadsTo d.fragments op.LeadsTo name

/-- A variable is used by an operation itself, or by a definition of a name reachable from it. -/
def UsedFrom (d : Document) (op : Operation) (x : Name) : Prop :=
  op.Uses x ∨ ∃ f ∈ d.fragments, d.ReachableFrom op f.name ∧ f.Uses x

theorem mem_liveFragments_iff {d : Document} {name : Name} :
    name ∈ d.liveFragments ↔ d.Reachable name := by
  have hstart : ∀ n, n ∈ d.operations.foldl Walker.spreadRecorder.walkOperation [] ↔
      ∃ op ∈ d.operations, op.LeadsTo n := by
    intro n
    have hstep : ∀ names op,
        n ∈ Walker.spreadRecorder.walkOperation names op ↔ op.LeadsTo n ∨ n ∈ names :=
      fun _ _ => Walker.mem_spreadRecorder_walkOperation_iff
    rw [mem_foldl_iff hstep, or_iff_left List.not_mem_nil]
  rw [liveFragments, fragmentGroups, FragmentGroups.mem_reach_iff]
  simp only [hstart]
  rfl

theorem variableSearch_eq (d : Document) (op : Operation) :
    d.variableSearch op =
      op.searchSteps.foldl (Search.take d.fragmentGroups.enterForVariables) .start :=
  Walker.variableFinder_walkOperation op

theorem mem_liveVariables_iff {d : Document} {op : Operation} {x : Name} :
    x ∈ d.liveVariables op ↔ d.UsedFrom op x := by
  have hsearch : (d.variableSearch op).Has (.find x) ↔
      FragmentGroups.StepsTo Fragment.searchSteps d.fragments op.searchSteps (.find x) := by
    rw [variableSearch_eq]
    exact FragmentGroups.has_search_iff Walker.takes_variableFinder
  refine hsearch.trans ?_
  simp only [FragmentGroups.StepsTo, Operation.searchSteps, Fragment.searchSteps,
    enter_mem_searchStepsOf_iff, find_mem_searchStepsOf_iff]
  rfl

/-- The search finds what a walk through the operation records, and a walk through each definition
that the operation reaches. -/
theorem mem_liveVariables_iff_recorded {d : Document} {op : Operation} {x : Name} :
    x ∈ d.liveVariables op ↔ x ∈ Walker.variableRecorder.walkOperation [] op ∨
      ∃ f ∈ d.fragments, d.ReachableFrom op f.name ∧
        x ∈ Walker.variableRecorder.walkFragment [] f := by
  simp only [mem_liveVariables_iff, UsedFrom, Walker.mem_variableRecorder_walkOperation_iff,
    Walker.mem_variableRecorder_walkFragment_iff, List.not_mem_nil, or_false]

theorem nodup_variableSearch (d : Document) (op : Operation) :
    (d.variableSearch op).entered.Nodup := by
  rw [variableSearch_eq]
  exact FragmentGroups.nodup_search Walker.takes_variableFinder

theorem flatMap_get_subperm (d : Document) {names : List Name} (distinct : names.Nodup) :
    (names.flatMap d.fragmentGroups.get).Subperm d.fragments := by
  have hget : d.fragmentGroups.get = (named · d.fragments) :=
    funext (FragmentGroups.get_ofList d.fragments)
  rw [hget]
  exact flatMap_named_subperm distinct d.fragments

theorem operations_dropUnusedFragments (d : Document) :
    d.dropUnusedFragments.operations = d.operations := by
  simp only [dropUnusedFragments, operations, List.filterMap_filter]
  apply List.filterMap_congr
  intro x _
  cases x <;> simp [Definition.isLive, Definition.operation?]

theorem fragments_dropUnusedFragments (d : Document) :
    d.dropUnusedFragments.fragments =
      d.fragments.filter fun f => d.liveFragments.contains f.name := by
  simp only [dropUnusedFragments, fragments, List.filterMap_filter, List.filter_filterMap]
  apply List.filterMap_congr
  intro x _
  cases x <;> simp [Definition.isLive, Definition.fragment?, Option.filter]

theorem mem_of_mem_dropUnusedFragments {d : Document} {f : Fragment}
    (hf : f ∈ d.dropUnusedFragments.fragments) : f ∈ d.fragments := by
  rw [fragments_dropUnusedFragments] at hf
  exact (List.mem_filter.mp hf).1

theorem mem_dropUnusedFragments {d : Document} {f : Fragment} (hf : f ∈ d.fragments)
    (hr : d.Reachable f.name) : f ∈ d.dropUnusedFragments.fragments := by
  rw [fragments_dropUnusedFragments, List.mem_filter, List.contains_iff_mem, mem_liveFragments_iff]
  exact ⟨hf, hr⟩

theorem operations_dropUnusedVariables (d : Document) :
    d.dropUnusedVariables.operations =
      d.operations.map fun op => op.keepVariables (d.liveVariables op) := by
  simp only [dropUnusedVariables, operations, List.filterMap_map, List.map_filterMap]
  apply List.filterMap_congr
  intro x _
  cases x <;> rfl

theorem fragments_dropUnusedVariables (d : Document) :
    d.dropUnusedVariables.fragments = d.fragments := by
  simp only [dropUnusedVariables, fragments, List.filterMap_map]
  apply List.filterMap_congr
  intro x _
  cases x <;> rfl

/-- Dropping unused fragments keeps a fragment definition exactly if its name is reachable, keeps
all other definitions, changes none and leaves them in order. The search comes to each reachable
name once and to no other, and so to no definition twice: it ends, on cyclic graphs as on others. -/
theorem dropUnusedFragments_keeps_reachable (d : Document) :
    ∃ keep : Definition → Bool,
      d.dropUnusedFragments.definitions = d.definitions.filter keep ∧
      (∀ f ∈ d.fragments, keep (.fragment f) = true ↔ d.Reachable f.name) ∧
      (∀ x ∈ d.definitions, x.fragment? = none → keep x = true) ∧
      (∀ name, name ∈ d.liveFragments ↔ d.Reachable name) ∧
      d.liveFragments.Nodup ∧
      (d.liveFragments.flatMap d.fragmentGroups.get).Subperm d.fragments := by
  have hdistinct : d.liveFragments.Nodup := FragmentGroups.nodup_reach List.nodup_nil
  refine ⟨fun x => x.isLive d.liveFragments, rfl, ?_, ?_, fun _ => mem_liveFragments_iff, hdistinct,
    d.flatMap_get_subperm hdistinct⟩
  · intro f _
    simp only [Definition.isLive, List.contains_iff_mem, mem_liveFragments_iff]
  · intro x _ hx
    cases x with
    | fragment f => simp [Definition.fragment?] at hx
    | operation op => rfl
    | typeSystem t => rfl

/-- Dropping unused variables keeps a variable definition of an operation exactly if the operation
uses its variable, itself or in a definition it reaches. Variable definitions stay in order, and
nothing else of the document changes. The search from an operation goes into each definition at most
once, so it ends, on cyclic graphs as on others. -/
theorem dropUnusedVariables_keeps_used (d : Document) :
    ∃ keep : Operation → VariableDefinition → Bool,
      d.dropUnusedVariables.definitions = d.definitions.map (·.mapOperation fun op =>
        { op with variableDefs := op.variableDefs.filter (keep op) }) ∧
      (∀ op ∈ d.operations, ∀ v ∈ op.variableDefs,
        keep op v = true ↔ d.UsedFrom op v.name) ∧
      ∀ op ∈ d.operations, (d.variableSearch op).entered.Nodup ∧
        ((d.variableSearch op).entered.flatMap d.fragmentGroups.get).Subperm d.fragments := by
  refine ⟨fun op v => (d.liveVariables op).contains v.name, rfl, ?_, ?_⟩
  · intro op _ v _
    rw [List.contains_iff_mem, mem_liveVariables_iff]
  · intro op _
    have hdistinct := d.nodup_variableSearch op
    exact ⟨hdistinct, d.flatMap_get_subperm hdistinct⟩

end Document

end QueryShaping
