import QueryShaping.Proofs.Narrowing

namespace QueryShaping

theorem after?_eq_some_iff {α : Type} [BEq α] [LawfulBEq α] {front rest : List α} :
    ∀ {whole : List α}, after? front whole = some rest ↔ whole = front ++ rest := by
  induction front with
  | nil => simp [after?]
  | cons a front ih =>
    intro whole
    cases whole with
    | nil => simp [after?]
    | cons b whole =>
      by_cases hab : a = b
      · simp [after?, hab, ih]
      · simp [after?, hab, Ne.symm hab]

/-- A column asks for a leaf of the custom fields object. It names the leaf through the object, or
by itself; a name that begins with the object and a dot is never a leaf's own. -/
inductive Column.AsksLeaf (object : Name) : Column → Name → Prop where
  | through {leaf : Name} : AsksLeaf object (customField (object ++ "." ++ leaf)) leaf
  | bare {leaf : Name} (itself : ∀ rest, leaf ≠ object ++ "." ++ rest) :
      AsksLeaf object (customField leaf) leaf

theorem customLeaf_through (object leaf : Name) :
    customLeaf object (object ++ "." ++ leaf) = leaf := by
  have hafter : after? (object.toList ++ ['.']) (object ++ "." ++ leaf).toList =
      some leaf.toList := by
    simp [after?_eq_some_iff]
  simp only [customLeaf, hafter, String.ofList_toList]

theorem customLeaf_bare {object leaf : Name} (itself : ∀ rest, leaf ≠ object ++ "." ++ rest) :
    customLeaf object leaf = leaf := by
  cases hafter : after? (object.toList ++ ['.']) leaf.toList with
  | none => simp [customLeaf, hafter]
  | some rest =>
    have hleaf : leaf = object ++ "." ++ String.ofList rest := by
      apply String.toList_injective
      simpa [after?_eq_some_iff] using hafter
    exact absurd hleaf (itself _)

theorem Column.asksLeaf_iff {object leaf : Name} {c : Column} :
    c.AsksLeaf object leaf ↔ c.isCustom = true ∧ customLeaf object c.name = leaf := by
  constructor
  · intro h
    cases h with
    | through => exact ⟨rfl, customLeaf_through object leaf⟩
    | bare itself => exact ⟨rfl, customLeaf_bare itself⟩
  · intro h
    obtain ⟨name, isCustom⟩ := c
    obtain ⟨rfl, hleaf⟩ := h
    subst hleaf
    by_cases hthrough : ∃ rest, name = object ++ "." ++ rest
    · obtain ⟨rest, rfl⟩ := hthrough
      rw [customLeaf_through]
      exact .through
    · have itself : ∀ rest, name ≠ object ++ "." ++ rest := by simpa using hthrough
      rw [customLeaf_bare itself]
      exact .bare itself

/-- Two lists of columns ask for the same: for the same fields of an item, type names apart, and for
the same leaves of the custom fields object. -/
structure AskAlike (object : Name) (columns columns' : List Column) : Prop where
  fields : ∀ x, x ≠ typenameField → (Column.field x ∈ columns ↔ Column.field x ∈ columns')
  leaves : ∀ leaf, (∃ c ∈ columns, c.AsksLeaf object leaf) ↔
    ∃ c ∈ columns', c.AsksLeaf object leaf

namespace AskAlike

variable {object : Name} {columns columns' columns'' : List Column}

theorem trans (h : AskAlike object columns columns') (h' : AskAlike object columns' columns'') :
    AskAlike object columns columns'' where
  fields x hx := (h.fields x hx).trans (h'.fields x hx)
  leaves leaf := (h.leaves leaf).trans (h'.leaves leaf)

theorem of_same_members (h : ∀ c, c ∈ columns ↔ c ∈ columns') :
    AskAlike object columns columns' where
  fields _ _ := h _
  leaves _ := exists_congr fun c => and_congr_left' (h c)

theorem cons_typename (object : Name) (columns : List Column) :
    AskAlike object (.field typenameField :: columns) columns where
  fields x hx := by simp [Column.field, hx]
  leaves leaf := by simp [Column.asksLeaf_iff, Column.field]

theorem cons_through {leaf : Name} (itself : ∀ rest, leaf ≠ object ++ "." ++ rest) :
    AskAlike object (.customField (object ++ "." ++ leaf) :: columns)
      (.customField leaf :: columns) where
  fields x _ := by simp [Column.field, Column.customField]
  leaves other := by
    simp [Column.asksLeaf_iff, Column.customField, customLeaf_through, customLeaf_bare itself]

end AskAlike

namespace Request

/-- Two requests ask for the same names. -/
structure SameNames (r r' : Request) : Prop where
  plain : ∀ x, x ∈ r.plain ↔ x ∈ r'.plain
  custom : ∀ x, x ∈ r.custom ↔ x ∈ r'.custom

theorem sameNames_ofColumns {object : Name} {columns columns' : List Column}
    (h : AskAlike object columns columns') :
    SameNames (ofColumns object columns) (ofColumns object columns') where
  plain x := by
    have hfield (columns : List Column) : (∃ c ∈ columns, c.isCustom = false ∧ c.name = x ∧
        x ≠ typenameField) ↔ x ≠ typenameField ∧ Column.field x ∈ columns := by
      constructor
      · intro h
        obtain ⟨⟨_, _⟩, hc, rfl, rfl, hx⟩ := h
        exact ⟨hx, hc⟩
      · intro h
        exact ⟨.field x, h.2, rfl, rfl, h.1⟩
    rw [mem_plain_ofColumns_iff, mem_plain_ofColumns_iff, hfield, hfield]
    exact and_congr_right (h.fields x)
  custom leaf := by
    simp only [mem_custom_ofColumns_iff, ← Column.asksLeaf_iff]
    exact h.leaves leaf

namespace SameNames

variable {r r' : Request} (h : SameNames r r') (s : ListSettings) (defs : List Fragment)

include h

theorem asksPlain_eq : r.asksPlain = r'.asksPlain := by
  funext x
  rw [Bool.eq_iff_iff, asksPlain, asksPlain, List.contains_iff_mem, List.contains_iff_mem, h.plain]

theorem contains_custom_eq : r.custom.contains = r'.custom.contains := by
  funext x
  rw [Bool.eq_iff_iff, List.contains_iff_mem, List.contains_iff_mem, h.custom]

theorem asksCustom_eq : r.asksCustom = r'.asksCustom := by
  have hnil : r.custom = [] ↔ r'.custom = [] := by
    simp only [List.eq_nil_iff_forall_not_mem, h.custom]
  rw [Bool.eq_iff_iff, asksCustom, asksCustom, Bool.not_eq_true', Bool.not_eq_true',
    List.isEmpty_eq_false_iff, List.isEmpty_eq_false_iff, ne_eq, ne_eq, hnil]

theorem keptLeaves_eq : r.keptLeaves = r'.keptLeaves := by
  funext children
  rw [keptLeaves, keptLeaves, h.contains_custom_eq]

theorem narrowField_eq : r.narrowField s = r'.narrowField s := by
  funext head children
  rw [narrowField, narrowField, h.asksPlain_eq, h.asksCustom_eq, h.keptLeaves_eq]

theorem narrowItem_eq : r.narrowItem s = r'.narrowItem s := by
  funext selection
  cases selection <;> simp only [narrowItem, h.narrowField_eq s]

theorem narrowPart_eq : r.narrowPart s defs = r'.narrowPart s defs := by
  have hasks : r.asks s.customField = r'.asks s.customField := by
    funext x
    rw [asks, asks, h.asksPlain_eq, h.asksCustom_eq]
  have hby : r.providedBy s defs = r'.providedBy s defs := by
    funext fragment
    rw [providedBy, providedBy, hasks]
  funext selection
  cases selection <;> simp only [narrowPart, h.narrowField_eq s, hby]

theorem narrowFragment_eq : r.narrowFragment s defs = r'.narrowFragment s defs := by
  funext f
  simp only [narrowFragment, h.narrowPart_eq s defs]

theorem needs_eq (items : List Selection) : r.needs s defs items = r'.needs s defs items := by
  funext fragment
  rw [Bool.eq_iff_iff, needs_iff, needs_iff]
  simp only [mem_missing_iff, h.plain, h.asksCustom_eq]

theorem narrowItems_eq : r.narrowItems s defs = r'.narrowItems s defs := by
  funext items
  simp only [narrowItems, h.narrowItem_eq s, h.needs_eq s defs items]

theorem narrowed_eq : r.narrowed s = r'.narrowed s := by
  funext d q
  simp only [narrowed, h.narrowItems_eq s d.fragments, h.narrowFragment_eq s d.fragments]

end SameNames

end Request

/-- Columns that ask for the same fields of an item, type names apart, and for the same leaves of
the custom fields object narrow a document to the same. -/
theorem narrow_depends_on_names_only {s : ListSettings} {columns columns' : List Column}
    (asked : columns ≠ []) (asked' : columns' ≠ [])
    (alike : AskAlike s.customField columns columns') (d : Document) :
    d.narrow s columns = d.narrow s columns' := by
  have hsame := Request.sameNames_ofColumns alike
  cases located : ListQuery.of? s d with
  | none => simp [Document.narrow, located]
  | some q =>
    rw [Document.narrow_eq asked located, Document.narrow_eq asked' located,
      hsame.narrowed_eq s]

/-- The price and the color of a product, asked for in two ways: once through the object, out of
order and with a type name, and once by themselves, one of them twice. -/
theorem narrow_depends_on_names_only_product :
    let through : List Column := [.field typenameField, .customField "customFields.color",
      .field "price"]
    let bare : List Column := [.field "price", .customField "color", .field "price"]
    let product : List Selection :=
      [.leaf "name", .leaf "price", .field ⟨none, "customFields", [], []⟩ [.leaf "color"]]
    through ≠ [] ∧ bare ≠ [] ∧ AskAlike "customFields" through bare ∧
      (plainListDocument product []).narrow {} through =
        (plainListDocument product []).narrow {} bare := by
  intro through bare product
  have hthrough : through ≠ [] := List.cons_ne_nil _ _
  have hbare : bare ≠ [] := List.cons_ne_nil _ _
  have itself : ∀ rest, "color" ≠ "customFields" ++ "." ++ rest := by
    intro rest heq
    have hlist := congrArg String.toList heq
    simp at hlist
  have halike : AskAlike "customFields" through bare := by
    apply (AskAlike.cons_typename _ _).trans
    apply (AskAlike.cons_through itself).trans
    apply AskAlike.of_same_members
    intro c
    simp only [bare, List.mem_cons, List.not_mem_nil, or_false]
    tauto
  exact ⟨hthrough, hbare, halike, narrow_depends_on_names_only hthrough hbare halike _⟩

end QueryShaping
