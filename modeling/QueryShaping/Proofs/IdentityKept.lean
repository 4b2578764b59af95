import QueryShaping.Proofs.Narrowing

namespace QueryShaping

/-- Items give a field themselves or through a fragment they spread. -/
def ItemsProvide (defs : List Fragment) (items : List Selection) (x : Name) : Prop :=
  hasField x items = true ∨ ∃ name ∈ spreadNames items, Provides defs name x

/-- The first of the fragments spread by the items that provides a field. -/
def FirstProvider (defs : List Fragment) (items : List Selection) (x name : Name) : Prop :=
  Provides defs name x ∧ ∃ before after, spreadNames items = before ++ name :: after ∧
    ∀ other ∈ before, ¬ Provides defs other x

namespace Request

/-- Items of which nothing but type names would be left, with no fragment needed. -/
structure LeavesBare (s : ListSettings) (r : Request) (defs : List Fragment)
    (items : List Selection) : Prop where
  selections : selectsContent (items.filterMap (r.narrowItem s)) = false
  spreads : ∀ name ∈ spreadNames items, ∀ x ∈ r.missing s items, ¬ Provides defs name x

/-- A definition still gives the identity once it is trimmed, and not by coming back to its own
name: through a selection that stays, or through any of its selections if none stays. -/
def KeepsIdentity (s : ListSettings) (r : Request) (defs : List Fragment) (f : Fragment) : Prop :=
  (∃ t ∈ f.selections, Stays s r defs t ∧
    ∃ selection, AtTop selection [t] ∧ selection.Gives (unnamed f.name defs) s.identityField) ∨
  (∀ t ∈ f.selections, ¬ Stays s r defs t) ∧
    ∃ t ∈ f.selections, t.Gives (unnamed f.name defs) s.identityField

variable {s : ListSettings} {r : Request} {defs : List Fragment} {items : List Selection}

theorem keepsIdentity_iff {f : Fragment} (named : s.identityField ≠ typenameField) :
    r.KeepsIdentity s defs f ↔
      ∃ selection, AtTop selection (r.narrowFragment s defs f).selections ∧
        selection.Gives (unnamed f.name defs) s.identityField := by
  unfold KeepsIdentity
  by_cases hstays : ∃ t ∈ f.selections, Stays s r defs t
  · have hsome : ¬ ∀ t ∈ f.selections, ¬ Stays s r defs t := by simpa using hstays
    simp only [hsome, false_and, or_false]
    exact (gives_narrowFragment_of_stays hstays named).symm
  · have hnone : ∀ t ∈ f.selections, ¬ Stays s r defs t := by simpa using hstays
    have hno : ¬ ∃ t ∈ f.selections, Stays s r defs t ∧
        ∃ selection, AtTop selection [t] ∧
          selection.Gives (unnamed f.name defs) s.identityField := by
      intro h
      obtain ⟨t, ht, hstay, _⟩ := h
      exact hnone t ht hstay
    rw [gives_narrowFragment_of_none hnone, or_iff_right hno]
    exact and_iff_right hnone

theorem find?_eq_some_iff_firstProvider {x name : Name} :
    (spreadNames items).find? (provides defs · x) = some name ↔
      FirstProvider defs items x name := by
  simp [List.find?_eq_some_iff_append, FirstProvider, provides_iff, ← Bool.not_eq_true]

theorem LeavesBare.not_left (h : r.LeavesBare s defs items) :
    ¬ (selectsContent (items.filterMap (r.narrowItem s)) = true ∨
      ∃ name ∈ spreadNames items, r.needs s defs items name = true) := by
  intro hleft
  rcases hleft with hcontent | ⟨name, hmem, hneeds⟩
  · rw [h.selections] at hcontent
    cases hcontent
  · obtain ⟨x, hx, hprovides⟩ := needs_iff.mp hneeds
    exact h.spreads name hmem x hx hprovides

theorem filter_needs_of_bare (hbare : r.LeavesBare s defs items) :
    (spreadNames items).filter (r.needs s defs items) = [] := by
  apply List.filter_eq_nil_iff.mpr
  intro name hmem hneeds
  exact hbare.not_left (.inr ⟨name, hmem, hneeds⟩)

theorem leavesBare_or_left (s : ListSettings) (r : Request) (defs : List Fragment)
    (items : List Selection) :
    r.LeavesBare s defs items ∨ selectsContent (items.filterMap (r.narrowItem s)) = true ∨
      ∃ name ∈ spreadNames items, r.needs s defs items name = true := by
  by_cases hleft : selectsContent (items.filterMap (r.narrowItem s)) = true ∨
      ∃ name ∈ spreadNames items, r.needs s defs items name = true
  · exact .inr hleft
  · obtain ⟨hcontent, hneeds⟩ := not_or.mp hleft
    refine .inl ⟨by simpa using hcontent, ?_⟩
    intro name hmem x hx hprovides
    exact hneeds ⟨name, hmem, needs_iff.mpr ⟨x, hx, hprovides⟩⟩

theorem narrowItems_of_leavesBare (hbare : r.LeavesBare s defs items) :
    r.narrowItems s defs items =
      match (spreadNames items).find? (provides defs · s.identityField) with
      | some name => (items.filterMap (r.narrowItem s), [name])
      | none => (if Name.isValid s.identityField then
            .leaf s.identityField :: items.filterMap (r.narrowItem s)
          else items.filterMap (r.narrowItem s), []) := by
  have hneeded := filter_needs_of_bare hbare
  cases hfirst : (spreadNames items).find? (provides defs · s.identityField) with
  | some name => simp [narrowItems, hneeded, hbare.selections, hfirst]
  | none => simp [narrowItems, hneeded, hbare.selections, hfirst]

theorem narrowItems_of_bare (hbare : r.LeavesBare s defs items)
    (valid : Name.isValid s.identityField = true) :
    r.narrowItems s defs items =
      match (spreadNames items).find? (provides defs · s.identityField) with
      | some name => (items.filterMap (r.narrowItem s), [name])
      | none => (.leaf s.identityField :: items.filterMap (r.narrowItem s), []) := by
  rw [narrowItems_of_leavesBare hbare, if_pos valid]

theorem hasField_identity_of_bare (hbare : r.LeavesBare s defs items)
    (named : s.identityField ≠ typenameField) :
    hasField s.identityField (items.filterMap (r.narrowItem s)) = false := by
  rw [← Bool.not_eq_true]
  intro hfield
  obtain ⟨kept, hmem, hname⟩ := List.mem_filterMap.mp (hasField_iff.mp hfield)
  have hcontent := selectsContent_iff.mpr ⟨kept, hmem, by simpa [hname] using named⟩
  rw [hbare.selections] at hcontent
  cases hcontent

/-- Where a fragment is the only one trimmed, it still provides the identity exactly if a definition
of it keeps it. -/
theorem provides_identity_trimmed_iff {name : Name} (named : s.identityField ≠ typenameField)
    (honly : (r.narrowItems s defs items).2 = [name]) :
    Provides (defs.map (r.trimmed s defs items)) name s.identityField ↔
      ∃ f ∈ defs, f.name = name ∧ r.KeepsIdentity s defs f := by
  have htrimmed : ∀ f : Fragment, f.name = name →
      r.trimmed s defs items f = r.narrowFragment s defs f := by
    intro f hf
    apply trimmed_of_mem
    simp [honly, hf]
  have hothers : unnamed name (defs.map (r.trimmed s defs items)) = unnamed name defs := by
    have hsame : ∀ f ∈ unnamed name defs, r.trimmed s defs items f = f := by
      intro f hf
      apply trimmed_of_not_mem
      simp [honly, (mem_unnamed_iff.mp hf).2]
    have hpredicate : ((fun f => f.name != name) ∘ r.trimmed s defs items : Fragment → Bool) =
        fun f => f.name != name := by
      funext f
      simp [name_trimmed]
    rw [unnamed, List.filter_map, hpredicate, ← unnamed]
    exact (List.map_congr_left hsame).trans (List.map_id _)
  rw [provides_iff_last_visit, hothers]
  constructor
  · intro h
    obtain ⟨_, hmem, hname, hgives⟩ := h
    obtain ⟨f, hf, rfl⟩ := List.mem_map.mp hmem
    rw [name_trimmed] at hname
    rw [htrimmed f hname, ← hname] at hgives
    exact ⟨f, hf, hname, (keepsIdentity_iff named).mpr hgives⟩
  · intro h
    obtain ⟨f, hf, rfl, hkeeps⟩ := h
    refine ⟨r.trimmed s defs items f, List.mem_map_of_mem hf, name_trimmed f, ?_⟩
    rw [htrimmed f rfl]
    exact (keepsIdentity_iff named).mp hkeeps

theorem itemsProvide_of_first {live : List Fragment} {name : Name}
    (hbare : r.LeavesBare s defs items) (named : s.identityField ≠ typenameField)
    (hfirst : FirstProvider defs items s.identityField name)
    (hitems : r.narrowItems s defs items = (items.filterMap (r.narrowItem s), [name])) :
    ItemsProvide live (r.narrowedItems s defs items) s.identityField ↔
      Provides live name s.identityField := by
  have hdirect : hasField s.identityField (r.narrowedItems s defs items) = false := by
    rw [narrowedItems, hitems, hasField_append_firstSpreads]
    exact hasField_identity_of_bare hbare named
  have hspreads : ∀ other, other ∈ spreadNames (r.narrowedItems s defs items) ↔ other = name := by
    intro other
    rw [mem_spreadNames_narrowedItems_iff, hitems, List.mem_singleton]
    constructor
    · intro h
      exact h.1
    · intro h
      subst h
      obtain ⟨_, before, after, hsplit, _⟩ := hfirst
      exact ⟨rfl, by simp [hsplit]⟩
  simp [ItemsProvide, hdirect, hspreads]

theorem itemsProvide_sweep_narrowed_iff {d : Document} {q : ListQuery}
    (located : ListQuery.of? s d = some q) (valid : Name.isValid s.identityField = true)
    (named : s.identityField ≠ typenameField) (hbare : r.LeavesBare s d.fragments q.items) :
    ItemsProvide (r.narrowed s d q).sweep.fragments (r.narrowedItems s d.fragments q.items)
        s.identityField ↔
      ∀ name, FirstProvider d.fragments q.items s.identityField name →
        ∃ f ∈ d.fragments, f.name = name ∧ r.KeepsIdentity s d.fragments f := by
  have hitems := narrowItems_of_bare hbare valid
  cases hfind : (spreadNames q.items).find? (provides d.fragments · s.identityField) with
  | none =>
    simp only [hfind] at hitems
    have hadded : hasField s.identityField (r.narrowedItems s d.fragments q.items) = true := by
      rw [narrowedItems, hitems, hasField_append_firstSpreads]
      simp [hasField, Selection.isFieldNamed, Selection.leaf, Selection.fieldName?]
    have hnone : ∀ name, ¬ FirstProvider d.fragments q.items s.identityField name := by
      intro name hfirst
      rw [← find?_eq_some_iff_firstProvider, hfind] at hfirst
      cases hfirst
    exact iff_of_true (.inl hadded) fun name hfirst => absurd hfirst (hnone name)
  | some name =>
    simp only [hfind] at hitems
    have hfirst := find?_eq_some_iff_firstProvider.mp hfind
    have hspread : name ∈ spreadNames (r.narrowedItems s d.fragments q.items) := by
      rw [mem_spreadNames_narrowedItems_iff, hitems]
      exact ⟨List.mem_singleton_self _, List.mem_of_find?_eq_some hfind⟩
    rw [itemsProvide_of_first hbare named hfirst hitems,
      provides_sweep_narrowed_iff located hspread,
      provides_identity_trimmed_iff named (by rw [hitems])]
    simp only [← find?_eq_some_iff_firstProvider, hfind, Option.some.injEq, forall_eq']

end Request

/-- The identity of the items. Items that select it still do. Items that would be left bare provide
it exactly if the fragment kept for it, where there is one, has a definition that keeps it. -/
theorem narrow_keeps_identity_iff {s : ListSettings} {columns : List Column} {d : Document}
    {q : ListQuery} (located : ListQuery.of? s d = some q) (asked : columns ≠ [])
    (valid : Name.isValid s.identityField = true) (named : s.identityField ≠ typenameField) :
    ∃ q', ListQuery.of? s (d.narrow s columns) = some q' ∧ q.SamePlace q' ∧
      (hasField s.identityField q.items = true → hasField s.identityField q'.items = true) ∧
      ((Request.ofColumns s.customField columns).LeavesBare s d.fragments q.items →
        (ItemsProvide (d.narrow s columns).fragments q'.items s.identityField ↔
          ∀ name, FirstProvider d.fragments q.items s.identityField name →
            ∃ f ∈ d.fragments, f.name = name ∧
              (Request.ofColumns s.customField columns).KeepsIdentity s d.fragments f)) := by
  rw [Document.narrow_eq asked located]
  obtain ⟨q', hq', hplace, hitems⟩ := Request.of?_sweep_narrowed
    (r := Request.ofColumns s.customField columns) located
  refine ⟨q', hq', hplace, ?_, ?_⟩
  · intro hdirect
    obtain ⟨selection, hmem, hname⟩ := List.any_eq_true.mp hdirect
    have hstill : selection ∈ q'.items.filter (Selection.isFieldNamed s.identityField) := by
      rw [hitems, Request.filter_narrowedItems named (fun _ => Request.narrowItem_of_identity)
        hdirect]
      exact List.mem_filter.mpr ⟨hmem, hname⟩
    exact List.any_eq_true.mpr ⟨selection, List.mem_filter.mp hstill⟩
  · intro hbare
    rw [hitems]
    exact Request.itemsProvide_sweep_narrowed_iff located valid named hbare

def card (outside inside : Name) : Fragment :=
  ⟨"Card", "Product", [], [.leaf outside, .inline (some "Product") [] [.leaf inside]]⟩

theorem topSteps_card (outside inside : Name) :
    (card outside inside).topSteps = [.find outside, .find inside] :=
  rfl

theorem provides_card_iff {outside inside name x : Name} :
    Provides [card outside inside] name x ↔ name = "Card" ∧ (x = outside ∨ x = inside) := by
  constructor
  · intro h
    cases h with
    | @field f _ member top =>
      have hf := List.mem_singleton.mp member
      subst f
      rw [← Fragment.find_mem_topSteps_iff, topSteps_card] at top
      exact ⟨rfl, by simpa using top⟩
    | @spread f next _ member top _ =>
      have hf := List.mem_singleton.mp member
      subst f
      rw [← Fragment.enter_mem_topSteps_iff, topSteps_card] at top
      simp at top
  · intro h
    obtain ⟨rfl, hx⟩ := h
    have htop : (card outside inside).TopSelects x := by
      rw [← Fragment.find_mem_topSteps_iff, topSteps_card]
      simpa using hx
    exact .field (List.mem_singleton_self _) htop

theorem leavesBare_card (outside inside : Name) (houtside : outside ≠ "unknown")
    (hinside : inside ≠ "unknown") :
    (Request.ofColumns "customFields" [Column.field "unknown"]).LeavesBare {}
      [card outside inside] [.spread "Card" []] where
  selections := rfl
  spreads := by
    intro name _ x hx hprovides
    have hunknown : x = "unknown" := by
      obtain ⟨hasked, _⟩ := Request.mem_missing_iff.mp hx
      simpa [Request.ofColumns, Request.asksCustom, Column.field, typenameField] using hasked
    obtain ⟨_, hx⟩ := provides_card_iff.mp hprovides
    rcases hx with rfl | rfl
    · exact houtside hunknown
    · exact hinside hunknown

/-- The identity inside an inline fragment is kept with it. -/
theorem narrow_keeps_identity_inside :
    let d := plainListDocument [.spread "Card" []] [card "name" "id"]
    ListQuery.of? {} d = some (plainListQuery [.spread "Card" []] [card "name" "id"]) ∧
      [Column.field "unknown"] ≠ [] ∧ Name.isValid "id" = true ∧ "id" ≠ typenameField ∧
      ∃ q', ListQuery.of? {} (d.narrow {} [Column.field "unknown"]) = some q' ∧
        ItemsProvide (d.narrow {} [Column.field "unknown"]).fragments q'.items "id" := by
  intro d
  have hlocated := of?_plainListDocument [.spread "Card" []] [card "name" "id"]
  have hasked : [Column.field "unknown"] ≠ [] := List.cons_ne_nil _ _
  have hvalid : Name.isValid "id" = true := by decide
  have hname : "id" ≠ typenameField := by decide
  have hbare := leavesBare_card "name" "id" (by decide) (by decide)
  obtain ⟨q', hq', _, _, hiff⟩ := narrow_keeps_identity_iff hlocated hasked hvalid hname
  refine ⟨hlocated, hasked, hvalid, hname, q', hq', (hiff hbare).mpr ?_⟩
  intro name hfirst
  obtain ⟨rfl, _⟩ := provides_card_iff.mp hfirst.1
  refine ⟨card "name" "id", List.mem_singleton_self _, rfl, .inl ?_⟩
  have hinline : .inline (some "Product") [] [.leaf "id"] ∈ (card "name" "id").selections := by
    simp [card]
  refine ⟨_, hinline, .inline, .leaf "id", ?_, .inl rfl⟩
  exact .deeper (List.mem_singleton_self _) (.here (List.mem_singleton_self _))

/-- The identity outside is lost: the inline fragment stays, so that nothing stands in for it. -/
theorem narrow_loses_identity_outside :
    let d := plainListDocument [.spread "Card" []] [card "id" "slug"]
    let r := Request.ofColumns "customFields" [Column.field "unknown"]
    ListQuery.of? {} d = some (plainListQuery [.spread "Card" []] [card "id" "slug"]) ∧
      Name.isValid "id" = true ∧ "id" ≠ typenameField ∧
      r.LeavesBare {} [card "id" "slug"] [.spread "Card" []] ∧
      ∃ q', ListQuery.of? {} (d.narrow {} [Column.field "unknown"]) = some q' ∧
        ¬ ItemsProvide (d.narrow {} [Column.field "unknown"]).fragments q'.items "id" := by
  intro d r
  have hlocated := of?_plainListDocument [.spread "Card" []] [card "id" "slug"]
  have hvalid : Name.isValid "id" = true := by decide
  have hname : "id" ≠ typenameField := by decide
  have hbare := leavesBare_card "id" "slug" (by decide) (by decide)
  obtain ⟨q', hq', _, hitems⟩ := Request.of?_sweep_narrowed (r := r) hlocated
  rw [← Document.narrow_eq (List.cons_ne_nil _ _) hlocated] at hq'
  refine ⟨hlocated, hvalid, hname, hbare, q', hq', ?_⟩
  rw [Document.narrow_eq (List.cons_ne_nil _ _) hlocated, hitems,
    Request.itemsProvide_sweep_narrowed_iff hlocated hvalid hname hbare]
  intro hkept
  have hfirst : FirstProvider [card "id" "slug"] [.spread "Card" []] "id" "Card" :=
    ⟨provides_card_iff.mpr ⟨rfl, .inl rfl⟩, [], [], rfl, by simp⟩
  obtain ⟨f, hf, _, hkeeps⟩ := hkept "Card" hfirst
  have hcard := List.mem_singleton.mp hf
  subst f
  have hinline : .inline (some "Product") [] [.leaf "slug"] ∈ (card "id" "slug").selections := by
    simp [card]
  rcases hkeeps with ⟨t, ht, hstay, hgives⟩ | ⟨hnone, _⟩
  · have hcases : t = .leaf "id" ∨ t = .inline (some "Product") [] [.leaf "slug"] := by
      simpa [card] using ht
    rcases hcases with rfl | rfl
    · cases hstay with
      | plain asked _ => simp [Request.ofColumns, Column.field, typenameField] at asked
      | custom object _ _ _ => simp at object
    · simp [exists_found_cons_iff, exists_found_nil_iff, Selection.inlined, Selection.Gives,
        Selection.fieldName?, Selection.spreadName?, Selection.leaf] at hgives
  · exact hnone _ hinline .inline

end QueryShaping
