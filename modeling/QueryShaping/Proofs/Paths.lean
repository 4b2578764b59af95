import QueryShaping.Proofs.Narrowing

namespace QueryShaping

/-- A path of fields is selected: each field stands among the selections of the one before it, in
their inline fragments, or in the definitions of the fragments they spread. -/
inductive Selects (defs : List Fragment) : List Selection → List FieldHead → Prop where
  | last {set : List Selection} {head : FieldHead} {children : List Selection}
      (member : .field head children ∈ set) : Selects defs set [head]
  | field {set : List Selection} {head : FieldHead} {children : List Selection}
      {path : List FieldHead} (member : .field head children ∈ set)
      (inner : Selects defs children path) : Selects defs set (head :: path)
  | inline {set : List Selection} {condition : Option Name} {directives : List Directive}
      {children : List Selection} {path : List FieldHead}
      (member : .inline condition directives children ∈ set)
      (inner : Selects defs children path) : Selects defs set path
  | spread {set : List Selection} {f : Fragment} {directives : List Directive}
      {path : List FieldHead} (member : .spread f.name directives ∈ set) (defined : f ∈ defs)
      (inner : Selects defs f.selections path) : Selects defs set path

def SelectsNames (defs : List Fragment) (set : List Selection) (names : List Name) : Prop :=
  ∃ path, Selects defs set path ∧ path.map (·.name) = names

def Spreads (set : List Selection) (name : Name) : Prop :=
  ∃ s, Within s set ∧ s.spreadName? = some name

variable {defs : List Fragment} {set : List Selection} {path : List FieldHead}

theorem selects_field_iff {head : FieldHead} {children : List Selection} :
    Selects defs [.field head children] path ↔
      path = [head] ∨ ∃ rest, path = head :: rest ∧ Selects defs children rest := by
  constructor
  · intro h
    cases h with
    | last member =>
      cases List.mem_singleton.mp member
      exact .inl rfl
    | field member inner =>
      cases List.mem_singleton.mp member
      exact .inr ⟨_, rfl, inner⟩
    | inline member _ => cases List.mem_singleton.mp member
    | spread member _ _ => cases List.mem_singleton.mp member
  · intro h
    rcases h with rfl | ⟨rest, rfl, inner⟩
    · exact .last (List.mem_singleton_self _)
    · exact .field (List.mem_singleton_self _) inner

theorem selects_spread_iff {name : Name} {directives : List Directive} :
    Selects defs [.spread name directives] path ↔
      ∃ f ∈ defs, f.name = name ∧ Selects defs f.selections path := by
  constructor
  · intro h
    cases h with
    | last member => cases List.mem_singleton.mp member
    | field member _ => cases List.mem_singleton.mp member
    | inline member _ => cases List.mem_singleton.mp member
    | spread member defined inner =>
      cases List.mem_singleton.mp member
      exact ⟨_, defined, rfl, inner⟩
  · intro h
    obtain ⟨f, defined, rfl, inner⟩ := h
    exact .spread (List.mem_singleton_self _) defined inner

theorem Spreads.of_subset {more : List Selection} {name : Name} (h : Spreads set name)
    (subset : ∀ s ∈ set, s ∈ more) : Spreads more name := by
  obtain ⟨t, ht, hname⟩ := h
  exact ⟨t, ht.of_subset subset, hname⟩

theorem Spreads.of_member {s : Selection} {name : Name} (member : s ∈ set)
    (h : Spreads s.children name) : Spreads set name := by
  obtain ⟨t, ht, hname⟩ := h
  exact ⟨t, .deeper member ht, hname⟩

/-- What is selected is selected through the definitions that are reached, whatever the others. -/
theorem Selects.of_reached {defs' : List Fragment} (h : Selects defs set path)
    (kept : ∀ f ∈ defs, Reached Fragment.LeadsTo defs (Spreads set) f.name → f ∈ defs') :
    Selects defs' set path := by
  have inner {s : Selection} {set : List Selection} (member : s ∈ set)
      (kept : ∀ f ∈ defs, Reached Fragment.LeadsTo defs (Spreads set) f.name → f ∈ defs') :
      ∀ f ∈ defs, Reached Fragment.LeadsTo defs (Spreads s.children) f.name → f ∈ defs' := by
    intro f hf hr
    apply kept f hf
    exact hr.mono (fun _ hm => hm) fun _ hn => .start (hn.of_member member)
  induction h with
  | last member => exact .last member
  | field member _ ih => exact .field member (ih (inner member kept))
  | inline member _ ih => exact .inline member (ih (inner member kept))
  | @spread set f directives path member defined _ ih =>
    have hspread : Reached Fragment.LeadsTo defs (Spreads set) f.name :=
      .start ⟨_, .here member, rfl⟩
    refine .spread member (kept f defined hspread) (ih ?_)
    intro g hg hr
    apply kept g hg
    exact hr.mono (fun _ hm => hm) fun _ hn => .step defined hspread hn

theorem selects_dropUnusedFragments_iff {d : Document}
    (hreach : ∀ name, Spreads set name → d.Reachable name) :
    Selects d.dropUnusedFragments.fragments set path ↔ Selects d.fragments set path := by
  constructor
  · intro h
    exact h.of_reached fun f hf _ => Document.mem_of_mem_dropUnusedFragments hf
  · intro h
    apply h.of_reached
    intro f hf hr
    exact Document.mem_dropUnusedFragments hf (hr.mono (fun _ hm => hm) hreach)

theorem Selects.of_subset {more : List Selection} (h : Selects defs set path)
    (subset : ∀ s ∈ set, s ∈ more) : Selects defs more path := by
  cases h with
  | last member => exact .last (subset _ member)
  | field member inner => exact .field (subset _ member) inner
  | inline member inner => exact .inline (subset _ member) inner
  | spread member defined inner => exact .spread (subset _ member) defined inner

theorem selects_iff_exists_mem : Selects defs set path ↔ ∃ t ∈ set, Selects defs [t] path := by
  constructor
  · intro h
    cases h with
    | last member => exact ⟨_, member, .last (List.mem_singleton_self _)⟩
    | field member inner => exact ⟨_, member, .field (List.mem_singleton_self _) inner⟩
    | inline member inner => exact ⟨_, member, .inline (List.mem_singleton_self _) inner⟩
    | spread member defined inner =>
      exact ⟨_, member, .spread (List.mem_singleton_self _) defined inner⟩
  · intro h
    obtain ⟨t, ht, h⟩ := h
    exact h.of_subset (by simpa using ht)

theorem Selects.of_leftOf {more : List Selection} (h : Selects defs set path)
    (left : ∀ s ∈ set, ∃ t ∈ more, s.LeftOf t) : Selects defs more path := by
  cases h with
  | last member =>
    obtain ⟨t, ht, hleft⟩ := left _ member
    cases hleft with
    | whole => exact .last ht
    | fewer _ => exact .last ht
  | field member inner =>
    obtain ⟨t, ht, hleft⟩ := left _ member
    cases hleft with
    | whole => exact .field ht inner
    | fewer kept => exact .field ht (inner.of_subset kept)
  | inline member inner =>
    obtain ⟨t, ht, hleft⟩ := left _ member
    cases hleft with
    | whole => exact .inline ht inner
  | spread member defined inner =>
    obtain ⟨t, ht, hleft⟩ := left _ member
    cases hleft with
    | whole => exact .spread ht defined inner

theorem Selects.of_map {change : Fragment → Fragment}
    (h : Selects (defs.map change) set path) (hname : ∀ f, (change f).name = f.name)
    (left : ∀ f, ∀ s ∈ (change f).selections, ∃ t ∈ f.selections, s.LeftOf t) :
    Selects defs set path := by
  induction h with
  | last member => exact .last member
  | field member _ ih => exact .field member ih
  | inline member _ ih => exact .inline member ih
  | spread member defined _ ih =>
    obtain ⟨f, hf, rfl⟩ := List.mem_map.mp defined
    rw [hname] at member
    exact .spread member hf (ih.of_leftOf (left f))

end QueryShaping
