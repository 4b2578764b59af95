import Mathlib.Data.List.Permutation
import QueryShaping.Fragments

namespace QueryShaping

def named (name : Name) (defs : List Fragment) : List Fragment :=
  defs.filter (·.name == name)

theorem mem_named_iff {name : Name} {defs : List Fragment} {f : Fragment} :
    f ∈ named name defs ↔ f ∈ defs ∧ f.name = name := by
  simp [named]

private theorem lookup_cons_eq {name key : Name} {group : List Fragment}
    {rest : List (Name × List Fragment)} :
    ((key, group) :: rest).lookup name = if name = key then some group else rest.lookup name := by
  rw [List.lookup_cons]
  by_cases h : name = key
  · simp [h]
  · rw [beq_false_of_ne h, if_neg h]

private theorem eraseDups_concat (names : List Name) (name : Name) :
    (names ++ [name]).eraseDups =
      if name ∈ names then names.eraseDups else names.eraseDups ++ [name] := by
  rw [List.eraseDups_append]
  by_cases h : name ∈ names
  · simp [List.removeAll, h]
  · simp [List.removeAll, h, List.eraseDups_cons]

namespace FragmentGroups

theorem insertEntry_of_ne {f : Fragment} {key : Name} (h : key ≠ f.name) (group : List Fragment)
    (rest : List (Name × List Fragment)) :
    insertEntry f ((key, group) :: rest) = (key, group) :: insertEntry f rest := by
  simp [insertEntry, h]

theorem lookup_insertEntry (f : Fragment) (entries : List (Name × List Fragment)) (name : Name) :
    (insertEntry f entries).lookup name =
      if name = f.name then some ((entries.lookup name).getD [] ++ [f])
      else entries.lookup name := by
  induction entries with
  | nil => simp [insertEntry, lookup_cons_eq]
  | cons entry rest ih =>
    obtain ⟨key, group⟩ := entry
    by_cases hkey : key = f.name
    · subst hkey
      by_cases hname : name = f.name <;> simp [insertEntry, lookup_cons_eq, hname]
    · rw [insertEntry_of_ne hkey, lookup_cons_eq, lookup_cons_eq, ih]
      by_cases hname : name = key
      · subst hname
        simp [hkey]
      · simp [hname]

theorem map_fst_insertEntry (f : Fragment) (entries : List (Name × List Fragment)) :
    (insertEntry f entries).map Prod.fst =
      if f.name ∈ entries.map Prod.fst then entries.map Prod.fst
      else entries.map Prod.fst ++ [f.name] := by
  induction entries with
  | nil => simp [insertEntry]
  | cons entry rest ih =>
    obtain ⟨key, group⟩ := entry
    by_cases hkey : key = f.name
    · simp [insertEntry, hkey]
    · rw [insertEntry_of_ne hkey, List.map_cons, List.map_cons, ih]
      by_cases hmem : f.name ∈ rest.map Prod.fst
      · rw [if_pos hmem, if_pos (List.mem_cons_of_mem _ hmem)]
      · have hnew : f.name ∉ key :: rest.map Prod.fst := by
          simpa [Ne.symm hkey] using hmem
        rw [if_neg hmem, if_neg hnew, List.cons_append]

theorem get_insert (groups : FragmentGroups) (f : Fragment) (name : Name) :
    (groups.insert f).get name = groups.get name ++ named name [f] := by
  rw [get, get, insert, lookup_insertEntry]
  by_cases h : name = f.name
  · simp [h, named]
  · simp [h, Ne.symm h, named]

theorem names_insert (groups : FragmentGroups) (f : Fragment) :
    (groups.insert f).names =
      if f.name ∈ groups.names then groups.names else groups.names ++ [f.name] :=
  map_fst_insertEntry f groups.entries

theorem nodup_names_insert {groups : FragmentGroups} (h : groups.names.Nodup) (f : Fragment) :
    (groups.insert f).names.Nodup := by
  rw [names_insert]
  split
  · exact h
  · rename_i hnew
    exact List.nodup_append_comm.mp (List.nodup_cons.mpr ⟨hnew, h⟩)

theorem ofList_concat (defs : List Fragment) (f : Fragment) :
    ofList (defs ++ [f]) = (ofList defs).insert f :=
  List.foldl_concat insert empty f defs

theorem get_ofList (defs : List Fragment) (name : Name) :
    (ofList defs).get name = named name defs := by
  induction defs using List.reverseRecOn with
  | nil => rfl
  | append_singleton defs f ih =>
    calc (ofList (defs ++ [f])).get name
      _ = (ofList defs).get name ++ named name [f] := by rw [ofList_concat, get_insert]
      _ = named name defs ++ named name [f] := by rw [ih]
      _ = named name (defs ++ [f]) := by simp only [named, List.filter_append]

theorem names_ofList (defs : List Fragment) :
    (ofList defs).names = (defs.map (·.name)).eraseDups := by
  induction defs using List.reverseRecOn with
  | nil => rfl
  | append_singleton defs f ih =>
    rw [ofList_concat, names_insert, ih, List.map_append, List.map_singleton, eraseDups_concat]
    simp only [List.mem_eraseDups]

theorem nodup_names_ofList (defs : List Fragment) : (ofList defs).names.Nodup := by
  induction defs using List.reverseRecOn with
  | nil => exact List.nodup_nil
  | append_singleton defs f ih =>
    rw [ofList_concat]
    exact nodup_names_insert ih f

theorem mem_names_ofList_iff {defs : List Fragment} {name : Name} :
    name ∈ (ofList defs).names ↔ ∃ f ∈ defs, f.name = name := by
  rw [names_ofList, List.mem_eraseDups, List.mem_map]

theorem mem_get_ofList_iff {defs : List Fragment} {name : Name} {f : Fragment} :
    f ∈ (ofList defs).get name ↔ f ∈ defs ∧ f.name = name := by
  rw [get_ofList, mem_named_iff]

theorem get_without_of_ne {groups : FragmentGroups} {name other : Name} (h : other ≠ name) :
    (groups.without name).get other = groups.get other := by
  obtain ⟨entries⟩ := groups
  simp only [get, without]
  congr 1
  induction entries with
  | nil => rfl
  | cons entry rest ih =>
    obtain ⟨key, group⟩ := entry
    by_cases hkey : key = name
    · subst hkey
      simp [lookup_cons_eq, h, ih]
    · simp [lookup_cons_eq, hkey, ih]

theorem get_without_self (groups : FragmentGroups) (name : Name) :
    (groups.without name).get name = [] := by
  apply get_eq_nil
  simp [without, names]

theorem isEmpty_ofList_iff {defs : List Fragment} : (ofList defs).isEmpty = true ↔ defs = [] := by
  have hnames : (ofList defs).isEmpty = true ↔ (ofList defs).names = [] := by
    simp [isEmpty, names]
  rw [hnames, List.eq_nil_iff_forall_not_mem, List.eq_nil_iff_forall_not_mem]
  constructor
  · intro h f hf
    exact h f.name (mem_names_ofList_iff.mpr ⟨f, hf, rfl⟩)
  · intro h name hname
    obtain ⟨f, hf, _⟩ := mem_names_ofList_iff.mp hname
    exact h f hf

end FragmentGroups

/-- Side by side, the definitions of distinct names are all definitions with one of them, each as
often as it is there. -/
theorem flatMap_named_perm {names : List Name} (distinct : names.Nodup) (defs : List Fragment) :
    (names.flatMap (named · defs)).Perm (defs.filter fun f => names.contains f.name) := by
  induction names with
  | nil => simp
  | cons name names ih =>
    obtain ⟨hnew, hdistinct⟩ := List.nodup_cons.mp distinct
    let all := defs.filter fun f => (name :: names).contains f.name
    have hfirst : all.filter (·.name == name) = named name defs := by
      rw [List.filter_filter, named]
      apply List.filter_congr
      intro f _
      by_cases hf : f.name = name <;> simp [hf]
    have hrest : all.filter (!·.name == name) = defs.filter fun f => names.contains f.name := by
      rw [List.filter_filter]
      apply List.filter_congr
      intro f _
      by_cases hf : f.name = name <;> simp [hf, hnew]
    have hparted : (all.filter (·.name == name) ++ all.filter (!·.name == name)).Perm all :=
      List.filter_append_perm (·.name == name) all
    rw [hfirst, hrest] at hparted
    exact ((ih hdistinct).append_left _).trans hparted

theorem flatMap_named_subperm {names : List Name} (distinct : names.Nodup) (defs : List Fragment) :
    (names.flatMap (named · defs)).Subperm defs :=
  (flatMap_named_perm distinct defs).subperm.trans List.filter_sublist.subperm

namespace Document

theorem mem_fragments_iff {d : Document} {f : Fragment} :
    f ∈ d.fragments ↔ .fragment f ∈ d.definitions := by
  rw [fragments, List.mem_filterMap]
  constructor
  · intro h
    obtain ⟨x, hx, hf⟩ := h
    cases x <;> simp_all [Definition.fragment?]
  · intro h
    exact ⟨_, h, rfl⟩

/-- The groups of a document are an exact grouping of its fragment definitions. Their names are the
names that occur, each once and in the order in which they first do; the group of any name is the
list of its definitions, in order; there is no group exactly if the document defines no fragment;
and the groups side by side are all its fragment definitions, however names and other definitions
are mixed. -/
theorem fragmentGroups_partition (d : Document) :
    d.fragmentGroups.names = (d.fragments.map (·.name)).eraseDups ∧
    d.fragmentGroups.names.Nodup ∧
    (∀ name, d.fragmentGroups.get name = d.fragments.filter (·.name == name)) ∧
    (d.fragmentGroups.isEmpty = true ↔ ∀ f, .fragment f ∉ d.definitions) ∧
    (d.fragmentGroups.names.flatMap d.fragmentGroups.get).Perm d.fragments := by
  have hget : d.fragmentGroups.get = (named · d.fragments) :=
    funext (FragmentGroups.get_ofList d.fragments)
  have hdistinct : d.fragmentGroups.names.Nodup := FragmentGroups.nodup_names_ofList d.fragments
  refine ⟨FragmentGroups.names_ofList d.fragments, hdistinct, congrFun hget, ?_, ?_⟩
  · rw [fragmentGroups, FragmentGroups.isEmpty_ofList_iff, List.eq_nil_iff_forall_not_mem]
    simp only [mem_fragments_iff]
  · have hall :
        d.fragments.filter (fun f => d.fragmentGroups.names.contains f.name) = d.fragments := by
      apply List.filter_eq_self.mpr
      intro f hf
      exact List.contains_iff_mem.mpr (FragmentGroups.mem_names_ofList_iff.mpr ⟨f, hf, rfl⟩)
    have hperm := flatMap_named_perm hdistinct d.fragments
    rwa [hall, ← hget] at hperm

end Document

end QueryShaping
