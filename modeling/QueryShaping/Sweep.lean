import QueryShaping.Fragments
import QueryShaping.Walk

namespace QueryShaping

namespace FragmentGroups

def spreadsIn (groups : FragmentGroups) (name : Name) : List Name :=
  (groups.get name).foldl Walker.spreadRecorder.walkFragment []

def namesBeyond (groups : FragmentGroups) (reached : List Name) : List Name :=
  groups.names.filter (!reached.contains ·)

theorem namesBeyond_cons (groups : FragmentGroups) (name : Name) (reached : List Name) :
    groups.namesBeyond (name :: reached) = (groups.namesBeyond reached).filter (· != name) := by
  rw [namesBeyond, namesBeyond, List.filter_filter]
  congr 1
  funext n
  by_cases h : n = name <;> simp [h]

theorem length_namesBeyond_cons_lt {groups : FragmentGroups} {name : Name} {reached : List Name}
    (hnew : ¬ reached.contains name) (hname : name ∈ groups.names) :
    (groups.namesBeyond (name :: reached)).length < (groups.namesBeyond reached).length := by
  rw [namesBeyond_cons]
  refine List.length_filter_lt_length_iff_exists.mpr ⟨name, ?_, by simp⟩
  exact List.mem_filter.mpr ⟨hname, by simpa using hnew⟩

theorem namesBeyond_cons_eq {groups : FragmentGroups} {name : Name} {reached : List Name}
    (hname : name ∉ groups.names) :
    groups.namesBeyond (name :: reached) = groups.namesBeyond reached := by
  rw [namesBeyond_cons]
  refine List.filter_eq_self.mpr fun n hn => ?_
  have hne : n ≠ name := fun he => hname (he ▸ (List.mem_filter.mp hn).1)
  simpa using hne

/-- Takes up pending names, the latest first. One that is new is reached, and what is spread in its
definitions is pending in its place. -/
def reach (groups : FragmentGroups) (reached : List Name) : List Name → List Name
  | [] => reached
  | name :: pending =>
    if reached.contains name then groups.reach reached pending
    else
      groups.reach (name :: reached)
        ((groups.spreadsIn name).filter (!(name :: reached).contains ·) ++ pending)
termination_by pending => ((groups.namesBeyond reached).length, pending.length)
decreasing_by
  · exact Prod.Lex.right _ (Nat.lt_succ_self _)
  · by_cases hname : name ∈ groups.names
    · exact Prod.Lex.left _ _ (length_namesBeyond_cons_lt ‹_› hname)
    · -- a name without definitions leaves nothing pending
      rw [namesBeyond_cons_eq hname, spreadsIn, get_eq_nil hname]
      exact Prod.Lex.right _ (Nat.lt_succ_self _)

end FragmentGroups

/-- The fragments spread by an operation, or in a definition of one of these. -/
def Document.liveFragments (d : Document) : List Name :=
  d.fragmentGroups.reach [] (d.operations.foldl Walker.spreadRecorder.walkOperation [])

/-- Finds the variables among the values met, and enters the fragments that are spread. -/
def Walker.variableFinder (enter : Search → Name → Search) : Walker Search where
  spread s fragment _ := (enter s fragment, true)
  value s value :=
    match value with
    | .var name => ({ s with found := name :: s.found }, true)
    | _ => (s, true)

def FragmentGroups.enterForVariables (groups : FragmentGroups) : Search → Name → Search :=
  groups.enter fun enter => (Walker.variableFinder enter).walkFragment

def Document.variableSearch (d : Document) (op : Operation) : Search :=
  (Walker.variableFinder d.fragmentGroups.enterForVariables).walkOperation .start op

/-- The variables used by an operation, or in a fragment that it leads to. -/
def Document.liveVariables (d : Document) (op : Operation) : List Name :=
  (d.variableSearch op).found

def Definition.isLive (live : List Name) : Definition → Bool
  | .fragment f => live.contains f.name
  | _ => true

def Document.dropUnusedFragments (d : Document) : Document :=
  let live := d.liveFragments
  ⟨d.definitions.filter (·.isLive live)⟩

def Operation.keepVariables (live : List Name) (op : Operation) : Operation :=
  { op with variableDefs := op.variableDefs.filter fun v => live.contains v.name }

def Document.dropUnusedVariables (d : Document) : Document :=
  ⟨d.definitions.map (·.mapOperation fun op => op.keepVariables (d.liveVariables op))⟩

def Document.sweep (d : Document) : Document :=
  d.dropUnusedFragments.dropUnusedVariables

end QueryShaping
