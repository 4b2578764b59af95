import QueryShaping.ListQuery.Provision
import QueryShaping.Proofs.Sweep

namespace QueryShaping

def unnamed (name : Name) (defs : List Fragment) : List Fragment :=
  defs.filter (·.name != name)

theorem mem_unnamed_iff {name : Name} {defs : List Fragment} {f : Fragment} :
    f ∈ unnamed name defs ↔ f ∈ defs ∧ f.name ≠ name := by
  simp [unnamed]

/-- A fragment provides a field: a definition of it selects the field at its top, or spreads there a
fragment that provides the field. -/
inductive Provides (defs : List Fragment) : Name → Name → Prop where
  | field {f : Fragment} {x : Name} (member : f ∈ defs) (top : f.TopSelects x) :
      Provides defs f.name x
  | spread {f : Fragment} {next x : Name} (member : f ∈ defs) (top : f.TopLeadsTo next)
      (provided : Provides defs next x) : Provides defs f.name x

section

variable {defs : List Fragment} {fragment x : Name}

theorem Provides.mono {defs' : List Fragment} (h : Provides defs fragment x)
    (hdefs : ∀ f ∈ defs, f ∈ defs') : Provides defs' fragment x := by
  induction h with
  | field member top => exact .field (hdefs _ member) top
  | spread member top _ ih => exact .spread (hdefs _ member) top ih

theorem Provides.map {change : Fragment → Fragment} (h : Provides defs fragment x)
    (hname : ∀ f, (change f).name = f.name)
    (hfield : ∀ f ∈ defs, f.TopSelects x → (change f).TopSelects x)
    (hspread : ∀ f ∈ defs, ∀ next, f.TopLeadsTo next → Provides defs next x →
      (change f).TopLeadsTo next) : Provides (defs.map change) fragment x := by
  induction h with
  | @field f x member top =>
    rw [← hname f]
    exact .field (List.mem_map_of_mem member) (hfield f member top)
  | @spread f next x member top provided ih =>
    rw [← hname f]
    exact .spread (List.mem_map_of_mem member) (hspread f member next top provided)
      (ih hfield hspread)

theorem Reached.provides {name : Name}
    (h : Reached Fragment.TopLeadsTo defs (· = fragment) name) (hp : Provides defs name x) :
    Provides defs fragment x := by
  induction h with
  | start begun => exact begun ▸ hp
  | step member _ next ih => exact ih (.spread member next hp)

theorem Provides.end_of_chain (h : Provides defs fragment x) :
    ∃ f ∈ defs, Reached Fragment.TopLeadsTo defs (· = fragment) f.name ∧ f.TopSelects x := by
  induction h with
  | @field f x member top => exact ⟨f, member, .start rfl, top⟩
  | @spread f next x member top _ ih =>
    obtain ⟨last, hlast, hr, htop⟩ := ih
    refine ⟨last, hlast, hr.mono (fun _ hm => hm) ?_, htop⟩
    intro n hn
    subst n
    exact .step member (.start rfl) top

/-- A selection gives a field: it is that field, or a spread of a fragment that provides it. -/
def Selection.Gives (defs : List Fragment) (x : Name) (s : Selection) : Prop :=
  s.fieldName? = some x ∨ ∃ next, s.spreadName? = some next ∧ Provides defs next x

theorem Provides.name_ne {other : Name} (h : Provides (unnamed fragment defs) other x) :
    other ≠ fragment := by
  cases h with
  | field member top => exact (mem_unnamed_iff.mp member).2
  | spread member top provided => exact (mem_unnamed_iff.mp member).2

theorem Provides.avoids_or_visits {other : Name} (h : Provides defs other x) :
    Provides (unnamed fragment defs) other x ∨ ∃ f ∈ defs, f.name = fragment ∧
      ∃ s, AtTop s f.selections ∧ s.Gives (unnamed fragment defs) x := by
  induction h with
  | @field f x member top =>
    by_cases hname : f.name = fragment
    · obtain ⟨s, hs, hx⟩ := top
      exact .inr ⟨f, member, hname, s, hs, .inl hx⟩
    · exact .inl (.field (mem_unnamed_iff.mpr ⟨member, hname⟩) top)
  | @spread f next x member top _ ih =>
    rcases ih with hnext | hvisit
    · by_cases hname : f.name = fragment
      · obtain ⟨s, hs, hspread⟩ := top
        exact .inr ⟨f, member, hname, s, hs, .inr ⟨next, hspread, hnext⟩⟩
      · exact .inl (.spread (mem_unnamed_iff.mpr ⟨member, hname⟩) top hnext)
    · exact .inr hvisit

/-- A fragment provides a field exactly if a definition of it gives the field without coming back to
the fragment: chains need no cycles. -/
theorem provides_iff_last_visit :
    Provides defs fragment x ↔ ∃ f ∈ defs, f.name = fragment ∧
      ∃ s, AtTop s f.selections ∧ s.Gives (unnamed fragment defs) x := by
  constructor
  · intro h
    exact h.avoids_or_visits.resolve_left fun havoids => havoids.name_ne rfl
  · intro h
    obtain ⟨f, member, rfl, s, hs, hgives⟩ := h
    rcases hgives with hx | ⟨next, hspread, hnext⟩
    · exact .field member ⟨s, hs, hx⟩
    · exact .spread member ⟨s, hs, hspread⟩ (hnext.mono fun g hg => (mem_unnamed_iff.mp hg).1)

end

mutual

def Selection.topSteps : Selection → List SearchStep
  | .field head _ => [.find head.name]
  | .spread fragment _ => [.enter fragment]
  | .inline _ _ children => topStepsOf children

def topStepsOf : List Selection → List SearchStep
  | [] => []
  | selection :: rest => selection.topSteps ++ topStepsOf rest

end

def Fragment.topSteps (f : Fragment) : List SearchStep :=
  topStepsOf f.selections

section

variable (enter : Search → Name → Search)

mutual

theorem Selection.findFields_eq (s : Search) (selection : Selection) :
    selection.findFields enter s = selection.topSteps.foldl (Search.take enter) s := by
  cases selection with
  | field head children => rfl
  | spread fragment directives => rfl
  | inline condition directives children => exact findFieldsIn_eq s children

theorem findFieldsIn_eq (s : Search) (set : List Selection) :
    findFieldsIn enter s set = (topStepsOf set).foldl (Search.take enter) s := by
  cases set with
  | nil => rfl
  | cons selection rest =>
    rw [findFieldsIn, selection.findFields_eq, findFieldsIn_eq, topStepsOf, List.foldl_append]

end

end

theorem takes_findFieldsIn :
    FragmentGroups.Takes (fun enter s f => findFieldsIn enter s f.selections) Fragment.topSteps :=
  fun enter s f => findFieldsIn_eq enter s f.selections

def Selection.topStep? : Selection → Option SearchStep
  | .field head _ => some (.find head.name)
  | .spread fragment _ => some (.enter fragment)
  | .inline _ _ _ => none

section

variable {step : SearchStep}

mutual

theorem Selection.mem_topSteps_iff (t : Selection) :
    step ∈ t.topSteps ↔
      t.topStep? = some step ∨ ∃ s, AtTop s t.inlined ∧ s.topStep? = some step := by
  cases t with
  | field head children =>
    simp [Selection.topSteps, Selection.topStep?, Selection.inlined, AtTop, not_found_nil, eq_comm]
  | spread fragment directives =>
    simp [Selection.topSteps, Selection.topStep?, Selection.inlined, AtTop, not_found_nil, eq_comm]
  | inline condition directives children =>
    simp [Selection.topSteps, Selection.topStep?, Selection.inlined, mem_topStepsOf_iff children]

theorem mem_topStepsOf_iff (set : List Selection) :
    step ∈ topStepsOf set ↔ ∃ s, AtTop s set ∧ s.topStep? = some step := by
  cases set with
  | nil => simp [topStepsOf, AtTop, exists_found_nil_iff]
  | cons t rest =>
    rw [topStepsOf, List.mem_append, t.mem_topSteps_iff, mem_topStepsOf_iff rest,
      exists_found_cons_iff]

end

end

theorem Selection.topStep?_eq_find_iff {s : Selection} {x : Name} :
    s.topStep? = some (.find x) ↔ s.fieldName? = some x := by
  cases s <;> simp [topStep?, fieldName?]

theorem Selection.topStep?_eq_enter_iff {s : Selection} {name : Name} :
    s.topStep? = some (.enter name) ↔ s.spreadName? = some name := by
  cases s <;> simp [topStep?, spreadName?]

theorem Fragment.find_mem_topSteps_iff {f : Fragment} {x : Name} :
    .find x ∈ f.topSteps ↔ f.TopSelects x := by
  simp only [topSteps, mem_topStepsOf_iff, Selection.topStep?_eq_find_iff]
  rfl

theorem Fragment.enter_mem_topSteps_iff {f : Fragment} {name : Name} :
    .enter name ∈ f.topSteps ↔ f.TopLeadsTo name := by
  simp only [topSteps, mem_topStepsOf_iff, Selection.topStep?_eq_enter_iff]
  rfl

section

variable {defs : List Fragment} {fragment x : Name}

theorem fieldSearch_eq (defs : List Fragment) (fragment : Name) :
    fieldSearch defs fragment =
      [.enter fragment].foldl (Search.take ((FragmentGroups.ofList defs).enter
        fun enter s f => findFieldsIn enter s f.selections)) .start :=
  rfl

theorem mem_providedFields_iff : x ∈ providedFields defs fragment ↔ Provides defs fragment x := by
  have hsearch : (fieldSearch defs fragment).Has (.find x) ↔
      FragmentGroups.StepsTo Fragment.topSteps defs [.enter fragment] (.find x) := by
    rw [fieldSearch_eq]
    exact FragmentGroups.has_search_iff takes_findFieldsIn
  have hstart : (fun n => SearchStep.enter n ∈ [SearchStep.enter fragment]) = (· = fragment) := by
    funext n
    simp
  refine hsearch.trans ?_
  simp only [FragmentGroups.StepsTo, hstart, Fragment.enter_mem_topSteps_iff,
    Fragment.find_mem_topSteps_iff]
  constructor
  · intro h
    rcases h with hnone | ⟨f, hf, hr, htop⟩
    · simp at hnone
    · exact hr.provides (.field hf htop)
  · intro h
    exact .inr h.end_of_chain

theorem nodup_fieldSearch (defs : List Fragment) (fragment : Name) :
    (fieldSearch defs fragment).entered.Nodup := by
  rw [fieldSearch_eq]
  exact FragmentGroups.nodup_search takes_findFieldsIn

theorem provides_iff : provides defs fragment x = true ↔ Provides defs fragment x := by
  rw [provides, List.contains_iff_mem, mem_providedFields_iff]

theorem not_provides_of_undefined (h : ∀ f ∈ defs, f.name ≠ fragment) :
    ¬ Provides defs fragment x := by
  intro hp
  cases hp with
  | field member top => exact h _ member rfl
  | spread member top provided => exact h _ member rfl

theorem Provides.of_reachable {d : Document} (h : Provides d.fragments fragment x)
    (hr : d.Reachable fragment) : Provides d.dropUnusedFragments.fragments fragment x := by
  induction h with
  | field member top => exact .field (Document.mem_dropUnusedFragments member hr) top
  | spread member top _ ih =>
    exact .spread (Document.mem_dropUnusedFragments member hr) top
      (ih (.step member hr top.leadsTo))

theorem provides_dropUnusedFragments_iff {d : Document} (hr : d.Reachable fragment) :
    Provides d.dropUnusedFragments.fragments fragment x ↔ Provides d.fragments fragment x := by
  constructor
  · intro h
    exact h.mono fun f hf => Document.mem_of_mem_dropUnusedFragments hf
  · intro h
    exact h.of_reachable hr

end

/-- The search for what a fragment provides is exact: it finds a field exactly if a finite chain
leads there, each link a spread at the top of a definition with the name come to, the last one the
field itself. It finds nothing for a fragment that is not defined, and goes into each definition at
most once, so it ends on every graph of fragments. -/
theorem providedFields_exactly (d : Document) (fragment : Name) :
    (∀ x, x ∈ providedFields d.fragments fragment ↔ Provides d.fragments fragment x) ∧
    ((∀ f ∈ d.fragments, f.name ≠ fragment) → providedFields d.fragments fragment = []) ∧
    (fieldSearch d.fragments fragment).entered.Nodup ∧
    ((fieldSearch d.fragments fragment).entered.flatMap d.fragmentGroups.get).Subperm
      d.fragments := by
  have hdistinct := nodup_fieldSearch d.fragments fragment
  refine ⟨fun x => mem_providedFields_iff, ?_, hdistinct, d.flatMap_get_subperm hdistinct⟩
  intro hundefined
  apply List.eq_nil_iff_forall_not_mem.mpr
  intro x hx
  exact not_provides_of_undefined hundefined (mem_providedFields_iff.mp hx)

end QueryShaping
