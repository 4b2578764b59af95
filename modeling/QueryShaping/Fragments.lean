import QueryShaping.Document.Definition

namespace QueryShaping

/-- Fragment definitions grouped by name, the names in order of first occurrence. A name may have
several definitions; a name that is spread may have none. -/
structure FragmentGroups where
  entries : List (Name × List Fragment)

namespace FragmentGroups

def empty : FragmentGroups :=
  ⟨[]⟩

def insertEntry (f : Fragment) : List (Name × List Fragment) → List (Name × List Fragment)
  | [] => [(f.name, [f])]
  | (name, group) :: rest =>
    if name == f.name then (name, group ++ [f]) :: rest
    else (name, group) :: insertEntry f rest

def insert (groups : FragmentGroups) (f : Fragment) : FragmentGroups :=
  ⟨insertEntry f groups.entries⟩

def ofList (defs : List Fragment) : FragmentGroups :=
  defs.foldl insert empty

def names (groups : FragmentGroups) : List Name :=
  groups.entries.map (·.1)

def get (groups : FragmentGroups) (name : Name) : List Fragment :=
  (groups.entries.lookup name).getD []

def isEmpty (groups : FragmentGroups) : Bool :=
  groups.entries.isEmpty

def without (groups : FragmentGroups) (name : Name) : FragmentGroups :=
  ⟨groups.entries.filter (·.1 != name)⟩

theorem get_eq_nil {groups : FragmentGroups} {name : Name} (h : name ∉ groups.names) :
    groups.get name = [] := by
  unfold get
  cases hgroup : groups.entries.lookup name with
  | none => rfl
  | some group =>
    obtain ⟨before, after, hentries, _⟩ := List.lookup_eq_some_iff.mp hgroup
    simp [names, hentries] at h

theorem length_without_lt {groups : FragmentGroups} {name : Name} (h : groups.get name ≠ []) :
    (groups.without name).entries.length < groups.entries.length := by
  have hname : name ∈ groups.names := Decidable.byContradiction fun hnot => h (get_eq_nil hnot)
  obtain ⟨entry, hentry, hsame⟩ := List.mem_map.mp hname
  exact List.length_filter_lt_length_iff_exists.mpr ⟨entry, hentry, by simp [hsame]⟩

end FragmentGroups

def Document.fragmentGroups (d : Document) : FragmentGroups :=
  .ofList d.fragments

/-- What a search through fragment definitions has come to: the names it has entered and what it has
found, latest first. -/
structure Search where
  entered : List Name
  found : List Name

def Search.start : Search :=
  ⟨[], []⟩

/-- Enters a fragment, unless that was done before. Then `look` goes through each of its
definitions, and may enter more fragments from there. -/
def FragmentGroups.enter (look : (Search → Name → Search) → Search → Fragment → Search)
    (groups : FragmentGroups) (s : Search) (fragment : Name) : Search :=
  if s.entered.contains fragment then s
  else
    let s := { s with entered := fragment :: s.entered }
    if _ : groups.get fragment = [] then s
    else
      -- nothing enters this fragment again, so from here on its group is not asked for
      (groups.get fragment).foldl
        (look fun s name => (groups.without fragment).enter look s name) s
termination_by groups.entries.length
decreasing_by exact length_without_lt ‹_›

end QueryShaping
