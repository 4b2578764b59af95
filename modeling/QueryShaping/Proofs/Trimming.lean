import QueryShaping.ListQuery.Narrowing
import QueryShaping.Proofs.Provision

namespace QueryShaping

theorem selectsContent_iff {selections : List Selection} :
    selectsContent selections = true ↔ ∃ t ∈ selections, t.fieldName? ≠ some typenameField := by
  simp [selectsContent]

/-- What is left of a selection: all of it, or the same field with fewer selections below it. -/
inductive Selection.LeftOf : Selection → Selection → Prop where
  | whole {s : Selection} : LeftOf s s
  | fewer {head : FieldHead} {left children : List Selection} (kept : ∀ s ∈ left, s ∈ children) :
      LeftOf (.field head left) (.field head children)

theorem Selection.LeftOf.fieldName?_eq {kept t : Selection} (h : kept.LeftOf t) :
    kept.fieldName? = t.fieldName? := by
  cases h <;> rfl

theorem Selection.LeftOf.inlined_eq {kept t : Selection} (h : kept.LeftOf t) :
    kept.inlined = t.inlined := by
  cases h <;> rfl

theorem Selection.LeftOf.spreadName?_eq {kept t : Selection} (h : kept.LeftOf t) :
    kept.spreadName? = t.spreadName? := by
  cases h <;> rfl

theorem AtTop.of_leftOf {kept : Selection} {set whole : List Selection} (h : AtTop kept set)
    (left : ∀ s ∈ set, ∃ t ∈ whole, s.LeftOf t) : ∃ t, AtTop t whole ∧ kept.LeftOf t := by
  cases h with
  | here member =>
    obtain ⟨t, ht, hleft⟩ := left _ member
    exact ⟨t, .here ht, hleft⟩
  | deeper member inner =>
    obtain ⟨t, ht, hleft⟩ := left _ member
    cases hleft with
    | whole => exact ⟨kept, .deeper ht inner, .whole⟩
    | fewer _ => exact absurd inner not_found_nil

namespace Request

/-- What stays of a fragment definition besides type names: fields asked for, custom fields objects
with a leaf asked for, spreads of fragments that provide something asked for, inline fragments. -/
inductive Stays (s : ListSettings) (r : Request) (defs : List Fragment) : Selection → Prop where
  | plain {head : FieldHead} {children : List Selection} (asked : head.name ∈ r.plain)
      (named : head.name ≠ typenameField) : Stays s r defs (.field head children)
  | custom {head : FieldHead} {children : List Selection} {leaf : Name}
      (object : head.name = s.customField) (selected : leaf ∈ fieldNames children)
      (asked : leaf ∈ r.custom) (named : head.name ≠ typenameField) :
      Stays s r defs (.field head children)
  | spread {name x : Name} {directives : List Directive} (asked : r.asks s.customField x = true)
      (provided : Provides defs name x) : Stays s r defs (.spread name directives)
  | inline {condition : Option Name} {directives : List Directive} {children : List Selection} :
      Stays s r defs (.inline condition directives children)

variable {s : ListSettings} {r : Request} {defs : List Fragment}

theorem providedBy_iff {name : Name} :
    r.providedBy s defs name = true ↔
      ∃ x, r.asks s.customField x = true ∧ Provides defs name x := by
  simp only [providedBy, List.any_eq_true, mem_providedFields_iff]
  exact exists_congr fun x => and_comm

theorem asksCustom_of_mem {leaf : Name} (h : leaf ∈ r.custom) : r.asksCustom = true := by
  simpa [asksCustom] using List.ne_nil_of_mem h

theorem narrowField_of_plain {head : FieldHead} {children : List Selection}
    (h : head.name ∈ r.plain) : r.narrowField s head children = some (.field head children) := by
  simp [narrowField, asksPlain, h]

theorem mem_keptLeaves_iff {children : List Selection} {selection : Selection} :
    selection ∈ r.keptLeaves children ↔
      selection ∈ children ∧ ∃ leaf, selection.fieldName? = some leaf ∧ leaf ∈ r.custom := by
  simp [keptLeaves, Option.any_eq_true]

theorem keptLeaves_ne_nil_iff {children : List Selection} :
    r.keptLeaves children ≠ [] ↔ ∃ leaf ∈ fieldNames children, leaf ∈ r.custom := by
  simp only [fieldNames, List.mem_filterMap]
  constructor
  · intro h
    obtain ⟨selection, hkept⟩ := List.exists_mem_of_ne_nil _ h
    obtain ⟨hmem, leaf, hname, hleaf⟩ := mem_keptLeaves_iff.mp hkept
    exact ⟨leaf, ⟨selection, hmem, hname⟩, hleaf⟩
  · intro h
    obtain ⟨leaf, ⟨selection, hmem, hname⟩, hleaf⟩ := h
    exact List.ne_nil_of_mem (mem_keptLeaves_iff.mpr ⟨hmem, leaf, hname, hleaf⟩)

theorem stays_field_iff {head : FieldHead} {children : List Selection} :
    Stays s r defs (.field head children) ↔
      (∃ kept, r.narrowField s head children = some kept) ∧ head.name ≠ typenameField := by
  constructor
  · intro h
    cases h with
    | plain asked named => exact ⟨⟨_, narrowField_of_plain asked⟩, named⟩
    | custom object selected asked named =>
      refine ⟨?_, named⟩
      have hleaves := keptLeaves_ne_nil_iff.mpr ⟨_, selected, asked⟩
      have hcustom := asksCustom_of_mem asked
      unfold narrowField
      split
      · exact ⟨_, rfl⟩
      · simp [object, hcustom, hleaves]
  · intro h
    obtain ⟨⟨kept, hkept⟩, named⟩ := h
    unfold narrowField at hkept
    split at hkept
    · rename_i hasked
      have hplain : head.name ∈ r.plain := by simpa [named, asksPlain] using hasked
      exact .plain hplain named
    · split at hkept
      · rename_i hobject
        split at hkept
        · cases hkept
        · rename_i hleaves
          obtain ⟨leaf, hmem, hleaf⟩ := keptLeaves_ne_nil_iff.mp (by simpa using hleaves)
          have hcustom : head.name = s.customField := by
            simp only [Bool.and_eq_true, beq_iff_eq] at hobject
            exact hobject.1
          exact .custom hcustom hmem hleaf named
      · cases hkept

/-- What may be kept in the place of a selection: all of it, or a field with the leaves asked for,
if there are any. -/
inductive Kept (r : Request) : Selection → Selection → Prop where
  | whole {t : Selection} : Kept r t t
  | leaves {head : FieldHead} {children : List Selection} (asked : r.keptLeaves children ≠ []) :
      Kept r (.field head (r.keptLeaves children)) (.field head children)

theorem Kept.leftOf {kept t : Selection} (h : Kept r kept t) : kept.LeftOf t := by
  cases h with
  | whole => exact .whole
  | leaves _ => exact .fewer fun t ht => (mem_keptLeaves_iff.mp ht).1

theorem kept_of_narrowField {head : FieldHead} {children : List Selection} {kept : Selection}
    (h : r.narrowField s head children = some kept) : Kept r kept (.field head children) := by
  unfold narrowField at h
  split at h
  · cases h
    exact .whole
  · split at h
    · split at h
      · cases h
      · rename_i hleaves
        cases h
        exact .leaves (by simpa using hleaves)
    · cases h

theorem kept_of_narrowPart {t kept : Selection} (h : r.narrowPart s defs t = some kept) :
    Kept r kept t := by
  cases t with
  | field head children => exact kept_of_narrowField h
  | spread name directives =>
    simp only [narrowPart, Option.ite_none_right_eq_some, Option.some.injEq] at h
    rw [← h.2]
    exact .whole
  | inline condition directives children =>
    cases h
    exact .whole

theorem leftOf_of_narrowPart {t kept : Selection} (h : r.narrowPart s defs t = some kept) :
    kept.LeftOf t :=
  (kept_of_narrowPart h).leftOf

/-- A selection of a fragment stays exactly if something is left of it that is no type name. -/
theorem stays_iff {t : Selection} :
    Stays s r defs t ↔
      (∃ kept, r.narrowPart s defs t = some kept) ∧ t.fieldName? ≠ some typenameField := by
  cases t with
  | field head children => simpa [narrowPart, Selection.fieldName?] using stays_field_iff
  | spread name directives =>
    have hby : Stays s r defs (.spread name directives) ↔ r.providedBy s defs name = true := by
      rw [providedBy_iff]
      constructor
      · intro h
        cases h with
        | spread asked provided => exact ⟨_, asked, provided⟩
      · intro h
        obtain ⟨x, asked, provided⟩ := h
        exact .spread asked provided
    simp [hby, narrowPart, Selection.fieldName?]
  | inline condition directives children =>
    simp [narrowPart, Selection.fieldName?, Stays.inline]

theorem selectsContent_parts_iff {selections : List Selection} :
    selectsContent (selections.filterMap (r.narrowPart s defs)) = true ↔
      ∃ t ∈ selections, Stays s r defs t := by
  simp only [selectsContent_iff, List.mem_filterMap, stays_iff]
  constructor
  · intro h
    obtain ⟨kept, ⟨t, ht, hkept⟩, hne⟩ := h
    rw [(leftOf_of_narrowPart hkept).fieldName?_eq] at hne
    exact ⟨t, ht, ⟨kept, hkept⟩, hne⟩
  · intro h
    obtain ⟨t, ht, ⟨kept, hkept⟩, hne⟩ := h
    rw [← (leftOf_of_narrowPart hkept).fieldName?_eq] at hne
    exact ⟨kept, ⟨t, ht, hkept⟩, hne⟩

theorem gives_of_narrowPart_iff {t kept : Selection} {live : List Fragment} {x : Name}
    (h : r.narrowPart s defs t = some kept) :
    (∃ selection, AtTop selection [kept] ∧ selection.Gives live x) ↔
      ∃ selection, AtTop selection [t] ∧ selection.Gives live x := by
  have hleft := leftOf_of_narrowPart h
  simp only [exists_found_cons_iff, exists_found_nil_iff, Selection.Gives, hleft.fieldName?_eq,
    hleft.spreadName?_eq, hleft.inlined_eq]

/-- What a fragment definition is trimmed to: the parts kept of it if one of its selections stays,
and else its identity field in front of them, or all of it. -/
inductive TrimsTo (s : ListSettings) (r : Request) (defs : List Fragment) (f : Fragment) :
    Fragment → Prop where
  | parts (stays : ∃ t ∈ f.selections, Stays s r defs t) :
      TrimsTo s r defs f { f with selections := f.selections.filterMap (r.narrowPart s defs) }
  | identified {identity : Selection} (bare : ∀ t ∈ f.selections, ¬ Stays s r defs t)
      (member : identity ∈ f.selections) (named : identity.fieldName? = some s.identityField) :
      TrimsTo s r defs f
        { f with selections := identity :: f.selections.filterMap (r.narrowPart s defs) }
  | whole (bare : ∀ t ∈ f.selections, ¬ Stays s r defs t) : TrimsTo s r defs f f

theorem trimsTo_narrowFragment (s : ListSettings) (r : Request) (defs : List Fragment)
    (f : Fragment) : TrimsTo s r defs f (r.narrowFragment s defs f) := by
  unfold narrowFragment
  dsimp only
  split
  · rename_i hcontent
    exact .parts (selectsContent_parts_iff.mp hcontent)
  · rename_i hcontent
    have hbare : ∀ t ∈ f.selections, ¬ Stays s r defs t := by
      rw [selectsContent_parts_iff] at hcontent
      simpa using hcontent
    split
    · rename_i identity hfirst
      have hname : identity.fieldName? = some s.identityField := by
        simpa [Selection.isFieldNamed] using List.find?_some hfirst
      exact .identified hbare (List.mem_of_find?_eq_some hfirst) hname
    · exact .whole hbare

theorem narrowFragment_eq (f : Fragment) :
    r.narrowFragment s defs f =
      { f with selections := (r.narrowFragment s defs f).selections } := by
  have h := trimsTo_narrowFragment s r defs f
  generalize r.narrowFragment s defs f = f' at h ⊢
  cases h <;> rfl

theorem leftOf_narrowFragment (f : Fragment) {kept : Selection}
    (h : kept ∈ (r.narrowFragment s defs f).selections) : ∃ t ∈ f.selections, kept.LeftOf t := by
  have hparts (hpart : kept ∈ f.selections.filterMap (r.narrowPart s defs)) :
      ∃ t ∈ f.selections, kept.LeftOf t := by
    obtain ⟨t, ht, hkept⟩ := List.mem_filterMap.mp hpart
    exact ⟨t, ht, leftOf_of_narrowPart hkept⟩
  have htrims := trimsTo_narrowFragment s r defs f
  generalize r.narrowFragment s defs f = f' at h htrims
  cases htrims with
  | parts _ => exact hparts h
  | identified _ member _ =>
    rcases List.mem_cons.mp h with rfl | hpart
    · exact ⟨kept, member, .whole⟩
    · exact hparts hpart
  | whole _ => exact ⟨kept, h, .whole⟩

theorem selections_narrowFragment {f : Fragment} (h : ∃ t ∈ f.selections, Stays s r defs t) :
    (r.narrowFragment s defs f).selections = f.selections.filterMap (r.narrowPart s defs) := by
  obtain ⟨t, ht, hstay⟩ := h
  have htrims := trimsTo_narrowFragment s r defs f
  generalize r.narrowFragment s defs f = f' at htrims ⊢
  cases htrims with
  | parts _ => rfl
  | identified bare _ _ => exact absurd hstay (bare t ht)
  | whole bare => exact absurd hstay (bare t ht)

theorem mem_narrowFragment {f : Fragment} {t : Selection} (hmem : t ∈ f.selections)
    (hkept : r.narrowPart s defs t = some t) (hcontent : t.fieldName? ≠ some typenameField) :
    t ∈ (r.narrowFragment s defs f).selections := by
  have hstays : Stays s r defs t := stays_iff.mpr ⟨⟨t, hkept⟩, hcontent⟩
  rw [selections_narrowFragment ⟨t, hmem, hstays⟩]
  exact List.mem_filterMap.mpr ⟨t, hmem, hkept⟩

theorem atTop_narrowFragment {f : Fragment} {selection : Selection}
    (htop : AtTop selection f.selections) (hkept : r.narrowPart s defs selection = some selection)
    (hcontent : selection.fieldName? ≠ some typenameField) :
    AtTop selection (r.narrowFragment s defs f).selections := by
  rcases htop.mem_or_inline with hmem | ⟨condition, directives, children, hmem, inner⟩
  · exact .here (mem_narrowFragment hmem hkept hcontent)
  · have hinline : .inline condition directives children ∈ (r.narrowFragment s defs f).selections :=
      mem_narrowFragment hmem rfl (by simp [Selection.fieldName?])
    exact .deeper hinline inner

theorem gives_narrowFragment_of_stays {f : Fragment} {live : List Fragment} {x : Name}
    (hstays : ∃ t ∈ f.selections, Stays s r defs t) (hne : x ≠ typenameField) :
    (∃ selection, AtTop selection (r.narrowFragment s defs f).selections ∧
        selection.Gives live x) ↔
      ∃ t ∈ f.selections, Stays s r defs t ∧
        ∃ selection, AtTop selection [t] ∧ selection.Gives live x := by
  rw [selections_narrowFragment hstays, exists_found_iff]
  simp only [List.mem_filterMap]
  constructor
  · intro h
    obtain ⟨kept, ⟨t, ht, hpart⟩, hgives⟩ := h
    rw [gives_of_narrowPart_iff hpart] at hgives
    refine ⟨t, ht, stays_iff.mpr ⟨⟨kept, hpart⟩, ?_⟩, hgives⟩
    -- A type name gives nothing but itself.
    intro htype
    obtain ⟨head, children, rfl, hhead⟩ := Selection.fieldName?_eq_some_iff.mp htype
    have hx : head.name = x := by
      simpa [exists_found_cons_iff, exists_found_nil_iff, Selection.inlined, Selection.Gives,
        Selection.fieldName?, Selection.spreadName?] using hgives
    exact hne (hx ▸ hhead)
  · intro h
    obtain ⟨t, ht, hstay, hgives⟩ := h
    obtain ⟨⟨kept, hpart⟩, _⟩ := stays_iff.mp hstay
    exact ⟨kept, ⟨t, ht, hpart⟩, (gives_of_narrowPart_iff hpart).mpr hgives⟩

theorem gives_narrowFragment_of_none {f : Fragment} {live : List Fragment}
    (hnone : ∀ t ∈ f.selections, ¬ Stays s r defs t) :
    (∃ selection, AtTop selection (r.narrowFragment s defs f).selections ∧
        selection.Gives live s.identityField) ↔
      ∃ t ∈ f.selections, t.Gives live s.identityField := by
  have htrims := trimsTo_narrowFragment s r defs f
  generalize r.narrowFragment s defs f = f' at htrims ⊢
  cases htrims with
  | parts stays =>
    obtain ⟨t, hmem, hstay⟩ := stays
    exact absurd hstay (hnone t hmem)
  | @identified identity _ hmem hname =>
    exact iff_of_true ⟨identity, .here List.mem_cons_self, .inl hname⟩ ⟨identity, hmem, .inl hname⟩
  | whole _ =>
    constructor
    · intro h
      obtain ⟨selection, htop, hgives⟩ := h
      rcases htop.mem_or_inline with hmem | ⟨_, _, _, hmem, _⟩
      · exact ⟨selection, hmem, hgives⟩
      · exact absurd .inline (hnone _ hmem)
    · intro h
      obtain ⟨t, hmem, hgives⟩ := h
      exact ⟨t, .here hmem, hgives⟩

end Request

end QueryShaping
