import QueryShaping.ListQuery.Provision
import QueryShaping.Proofs.Reach

namespace QueryShaping

/-- What a search comes upon: something to be found, or a fragment to be entered. -/
inductive SearchStep where
  | find (name : Name)
  | enter (name : Name)

namespace Search

def take (enter : Search → Name → Search) (s : Search) : SearchStep → Search
  | .find x => { s with found := x :: s.found }
  | .enter name => enter s name

def Has (s : Search) : SearchStep → Prop
  | .find x => x ∈ s.found
  | .enter name => name ∈ s.entered

/-- A search that has gone on keeps what it had. Of every fragment entered since, and of no other,
it need be known that all steps of its definitions are taken. -/
structure GoesOn (groups : FragmentGroups) (steps : Fragment → List SearchStep) (s s' : Search) :
    Prop where
  keeps : ∀ step, s.Has step → s'.Has step
  done : ∀ name ∈ s'.entered, name ∉ s.entered →
    ∀ f ∈ groups.get name, ∀ step ∈ steps f, s'.Has step
  nodup : s.entered.Nodup → s'.entered.Nodup

variable {groups : FragmentGroups} {steps : Fragment → List SearchStep} {s s' s'' : Search}

theorem GoesOn.refl (s : Search) : GoesOn groups steps s s where
  keeps _ h := h
  done _ hin hout := absurd hin hout
  nodup h := h

theorem GoesOn.trans (h : GoesOn groups steps s s') (h' : GoesOn groups steps s' s'') :
    GoesOn groups steps s s'' where
  keeps step hs := h'.keeps step (h.keeps step hs)
  done := by
    intro name hin hout f hf step hstep
    by_cases hmid : name ∈ s'.entered
    · exact h'.keeps step (h.done name hmid hout f hf step hstep)
    · exact h'.done name hin hmid f hf step hstep
  nodup hs := h'.nodup (h.nodup hs)

theorem GoesOn.find (s : Search) (x : Name) :
    GoesOn groups steps s { s with found := x :: s.found } where
  keeps step hs := by
    cases step with
    | find y => exact List.mem_cons_of_mem _ hs
    | enter name => exact hs
  done _ hin hout := absurd hin hout
  nodup h := h

theorem goesOn_foldl {enter : Search → Name → Search}
    (h : ∀ s name, GoesOn groups steps s (enter s name) ∧ name ∈ (enter s name).entered)
    (todo : List SearchStep) (s : Search) :
    GoesOn groups steps s (todo.foldl (take enter) s) ∧
      ∀ step ∈ todo, (todo.foldl (take enter) s).Has step := by
  induction todo generalizing s with
  | nil => exact ⟨.refl s, fun _ hstep => absurd hstep List.not_mem_nil⟩
  | cons first rest ih =>
    have hfirst : GoesOn groups steps s (take enter s first) ∧ (take enter s first).Has first := by
      cases first with
      | find x => exact ⟨.find s x, List.mem_cons_self⟩
      | enter name => exact h s name
    obtain ⟨hrest, htaken⟩ := ih (take enter s first)
    refine ⟨hfirst.1.trans hrest, ?_⟩
    intro step hstep
    rcases List.mem_cons.mp hstep with rfl | hstep
    · exact hrest.keeps step hfirst.2
    · exact htaken step hstep

theorem sound_foldl {P : SearchStep → Prop} {enter : Search → Name → Search}
    (h : ∀ s name, (∀ step, s.Has step → P step) → P (.enter name) →
      ∀ step, (enter s name).Has step → P step) {todo : List SearchStep} {s : Search}
    (hs : ∀ step, s.Has step → P step) (htodo : ∀ step ∈ todo, P step) :
    ∀ step, (todo.foldl (take enter) s).Has step → P step := by
  induction todo generalizing s with
  | nil => exact hs
  | cons first rest ih =>
    obtain ⟨hfirst, hrest⟩ := List.forall_mem_cons.mp htodo
    refine ih ?_ hrest
    cases first with
    | enter name => exact h s name hs hfirst
    | find x =>
      intro step hstep
      cases step with
      | enter name => exact hs _ hstep
      | find y =>
        rcases List.mem_cons.mp hstep with rfl | hy
        · exact hfirst
        · exact hs (.find y) hy

end Search

namespace FragmentGroups

/-- What is done in a definition is to take certain steps, whatever entering does. -/
def Takes (look : (Search → Name → Search) → Search → Fragment → Search)
    (steps : Fragment → List SearchStep) : Prop :=
  ∀ enter s f, look enter s f = (steps f).foldl (Search.take enter) s

variable {look : (Search → Name → Search) → Search → Fragment → Search}
  {steps : Fragment → List SearchStep} {groups : FragmentGroups} {s : Search} {name : Name}

theorem enter_of_mem (h : name ∈ s.entered) : groups.enter look s name = s := by
  rw [enter, if_pos (List.contains_iff_mem.mpr h)]

theorem enter_of_not_mem (takes : Takes look steps) (h : name ∉ s.entered) :
    groups.enter look s name =
      ((groups.get name).flatMap steps).foldl (Search.take ((groups.without name).enter look))
        { s with entered := name :: s.entered } := by
  have hnew : ¬ s.entered.contains name = true := by simpa using h
  rw [enter, if_neg hnew]
  split
  · rename_i hnone
    rw [hnone, List.flatMap_nil, List.foldl_nil]
  · rw [List.foldl_flatMap]
    have hlook : look (fun s name' => (groups.without name).enter look s name') =
        fun s f => (steps f).foldl (Search.take ((groups.without name).enter look)) s := by
      funext s f
      exact takes _ s f
    rw [hlook]

theorem has_entered {P : SearchStep → Prop} (hs : ∀ step, s.Has step → P step)
    (hname : P (.enter name)) :
    ∀ step, Search.Has { s with entered := name :: s.entered } step → P step := by
  intro step hstep
  cases step with
  | find x => exact hs (.find x) hstep
  | enter other =>
    rcases List.mem_cons.mp hstep with rfl | hother
    · exact hname
    · exact hs (.enter other) hother

theorem goesOn_of_without {s' : Search} (hnew : name ∉ s.entered)
    (h : Search.GoesOn (groups.without name) steps { s with entered := name :: s.entered } s')
    (taken : ∀ f ∈ groups.get name, ∀ step ∈ steps f, s'.Has step) :
    Search.GoesOn groups steps s s' where
  keeps step hs := by
    apply h.keeps
    cases step with
    | find x => exact hs
    | enter other => exact List.mem_cons_of_mem _ hs
  done := by
    intro other hin hout f hf
    by_cases hname : other = name
    · subst hname
      exact taken f hf
    · have hother : other ∉ name :: s.entered := by simp [hname, hout]
      exact h.done other hin hother f (by rwa [get_without_of_ne hname])
  nodup hs := h.nodup (List.nodup_cons.mpr ⟨hnew, hs⟩)

/-- Entering a fragment goes on: of whatever is entered on the way, all steps are taken in the end,
also where it is met again before they are. -/
theorem goesOn_enter (takes : Takes look steps) (groups : FragmentGroups) (s : Search)
    (name : Name) : Search.GoesOn groups steps s (groups.enter look s name) ∧
      name ∈ (groups.enter look s name).entered := by
  induction groups, s, name using enter.induct with
  | case1 groups s name hmem =>
    have hmem : name ∈ s.entered := List.contains_iff_mem.mp hmem
    rw [enter_of_mem hmem]
    exact ⟨.refl s, hmem⟩
  | case2 groups s name hnew hnone =>
    have hnew : name ∉ s.entered := fun h => hnew (List.contains_iff_mem.mpr h)
    rw [enter_of_not_mem takes hnew, hnone]
    refine ⟨goesOn_of_without hnew (.refl _) ?_, List.mem_cons_self⟩
    simp [hnone]
  | case3 groups s name hnew _ ih =>
    have hnew : name ∉ s.entered := fun h => hnew (List.contains_iff_mem.mpr h)
    rw [enter_of_not_mem takes hnew]
    obtain ⟨hgoes, htaken⟩ := Search.goesOn_foldl ih ((groups.get name).flatMap steps)
      { s with entered := name :: s.entered }
    -- what is entered on the way is done among the other groups, the fragment itself by these steps
    refine ⟨goesOn_of_without hnew hgoes ?_, hgoes.keeps (.enter name) List.mem_cons_self⟩
    intro f hf step hstep
    exact htaken step (List.mem_flatMap.mpr ⟨f, hf, hstep⟩)

theorem without_comm (groups : FragmentGroups) (name other : Name) :
    (groups.without name).without other = (groups.without other).without name := by
  simp only [without, List.filter_filter, Bool.and_comm]

theorem foldl_take_congr {enter enter' : Search → Name → Search} {keep : Name}
    (kept : ∀ s n, keep ∈ s.entered → keep ∈ (enter s n).entered)
    (same : ∀ s n, keep ∈ s.entered → enter s n = enter' s n) (todo : List SearchStep)
    {s : Search} (hs : keep ∈ s.entered) :
    todo.foldl (Search.take enter) s = todo.foldl (Search.take enter') s := by
  induction todo generalizing s with
  | nil => rfl
  | cons first rest ih =>
    cases first with
    | find x =>
      rw [List.foldl_cons, List.foldl_cons]
      exact ih (s := { s with found := x :: s.found }) hs
    | enter n =>
      rw [List.foldl_cons, List.foldl_cons, Search.take, Search.take, ← same s n hs]
      exact ih (kept s n hs)

theorem mem_entered_enter (takes : Takes look steps) {keep : Name} (h : keep ∈ s.entered) :
    keep ∈ (groups.enter look s name).entered :=
  (goesOn_enter takes groups s name).1.keeps (.enter keep) h

/-- The group of a fragment that is entered already is not asked for. -/
theorem enter_without (takes : Takes look steps) {keep : Name} (h : keep ∈ s.entered) :
    (groups.without keep).enter look s name = groups.enter look s name := by
  induction groups, s, name using enter.induct with
  | case1 groups s name hmem =>
    have hmem : name ∈ s.entered := List.contains_iff_mem.mp hmem
    rw [enter_of_mem hmem, enter_of_mem hmem]
  | case2 groups s name hnew hnone =>
    have hnew : name ∉ s.entered := fun h => hnew (List.contains_iff_mem.mpr h)
    have hne : name ≠ keep := fun he => hnew (he ▸ h)
    rw [enter_of_not_mem takes hnew, enter_of_not_mem takes hnew, get_without_of_ne hne, hnone]
    rfl
  | case3 groups s name hnew _ ih =>
    have hnew : name ∉ s.entered := fun h => hnew (List.contains_iff_mem.mpr h)
    have hne : name ≠ keep := fun he => hnew (he ▸ h)
    rw [enter_of_not_mem takes hnew, enter_of_not_mem takes hnew, get_without_of_ne hne,
      without_comm]
    exact foldl_take_congr (fun _ _ => mem_entered_enter takes) (fun s n => ih s n) _
      (List.mem_cons_of_mem name h)

/-- Entering a fragment is the plain recursion through the definitions of all names, which stops at
names that are entered already. -/
theorem enter_eq (takes : Takes look steps) (groups : FragmentGroups) (s : Search) (name : Name) :
    groups.enter look s name =
      if name ∈ s.entered then s
      else (groups.get name).foldl (look (groups.enter look))
        { s with entered := name :: s.entered } := by
  split
  · exact enter_of_mem ‹_›
  · have hlook : look (groups.enter look) =
        fun s f => (steps f).foldl (Search.take (groups.enter look)) s := by
      funext s f
      exact takes _ s f
    rw [enter_of_not_mem takes ‹_›, hlook, ← List.foldl_flatMap]
    exact foldl_take_congr (fun _ _ => mem_entered_enter takes) (fun _ _ => enter_without takes) _
      List.mem_cons_self

theorem enter_sound (takes : Takes look steps) {P : SearchStep → Prop} (groups : FragmentGroups)
    (s : Search) (name : Name)
    (closed : ∀ n, P (.enter n) → ∀ f ∈ groups.get n, ∀ step ∈ steps f, P step)
    (hs : ∀ step, s.Has step → P step) (hname : P (.enter name)) :
    ∀ step, (groups.enter look s name).Has step → P step := by
  induction groups, s, name using enter.induct with
  | case1 groups s name hmem =>
    rw [enter_of_mem (List.contains_iff_mem.mp hmem)]
    exact hs
  | case2 groups s name hnew hnone =>
    rw [enter_of_not_mem takes fun h => hnew (List.contains_iff_mem.mpr h), hnone]
    exact has_entered hs hname
  | case3 groups s name hnew _ ih =>
    rw [enter_of_not_mem takes fun h => hnew (List.contains_iff_mem.mpr h)]
    have hothers : ∀ n, P (.enter n) → ∀ f ∈ (groups.without name).get n, ∀ step ∈ steps f,
        P step := by
      intro n hn f hf
      by_cases hsame : n = name
      · subst hsame
        rw [get_without_self] at hf
        cases hf
      · rw [get_without_of_ne hsame] at hf
        exact closed n hn f hf
    apply Search.sound_foldl fun s n => ih s n hothers
    · exact has_entered hs hname
    · intro step hstep
      obtain ⟨f, hf, hstep⟩ := List.mem_flatMap.mp hstep
      exact closed name hname f hf step hstep

/-- A step is one of the first, or is a step of a definition that the first ones reach. -/
def StepsTo (steps : Fragment → List SearchStep) (defs : List Fragment) (todo : List SearchStep)
    (step : SearchStep) : Prop :=
  step ∈ todo ∨ ∃ f ∈ defs,
    Reached (fun f n => .enter n ∈ steps f) defs (fun n => .enter n ∈ todo) f.name ∧ step ∈ steps f

variable {defs : List Fragment} {todo : List SearchStep} {step : SearchStep}

theorem StepsTo.reached (h : StepsTo steps defs todo (.enter name)) :
    Reached (fun f n => .enter n ∈ steps f) defs (fun n => .enter n ∈ todo) name := by
  rcases h with hn | ⟨f, hf, hr, hn⟩
  · exact .start hn
  · exact .step hf hr hn

/-- A search that takes some steps has exactly these, and the steps of all definitions reached. -/
theorem has_search_iff (takes : Takes look steps) :
    (todo.foldl (Search.take ((ofList defs).enter look)) .start).Has step ↔
      StepsTo steps defs todo step := by
  constructor
  · have hclosed : ∀ n, StepsTo steps defs todo (.enter n) → ∀ f ∈ (ofList defs).get n,
        ∀ step ∈ steps f, StepsTo steps defs todo step := by
      intro n hn f hf step hstep
      obtain ⟨hmem, rfl⟩ := mem_get_ofList_iff.mp hf
      exact .inr ⟨f, hmem, hn.reached, hstep⟩
    have hstart : ∀ step, Search.start.Has step → StepsTo steps defs todo step := by
      intro step hstep
      cases step <;> cases hstep
    exact Search.sound_foldl (fun s name => enter_sound takes (ofList defs) s name hclosed) hstart
      (fun _ => .inl) step
  · obtain ⟨hgoes, htaken⟩ :=
      Search.goesOn_foldl (goesOn_enter takes (ofList defs)) todo .start
    have hdone : ∀ f ∈ defs, Search.Has _ (.enter f.name) → ∀ step ∈ steps f, Search.Has _ step :=
      fun f hf hin => hgoes.done f.name hin List.not_mem_nil f (mem_get_ofList_iff.mpr ⟨hf, rfl⟩)
    intro h
    rcases h with hstep | ⟨f, hf, hr, hstep⟩
    · exact htaken step hstep
    · refine hdone f hf ?_ step hstep
      exact hr.of_closed (P := fun n => Search.Has _ (.enter n)) (fun n => htaken (.enter n))
        fun g hg hin n hn => hdone g hg hin (.enter n) hn

theorem nodup_search (takes : Takes look steps) :
    (todo.foldl (Search.take ((ofList defs).enter look)) .start).entered.Nodup :=
  (Search.goesOn_foldl (goesOn_enter takes (ofList defs)) todo .start).1.nodup List.nodup_nil

end FragmentGroups

end QueryShaping
