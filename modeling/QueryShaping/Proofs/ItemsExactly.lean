import Mathlib
import QueryShaping.Proofs.IdentityKept

namespace QueryShaping

/-- The first spread of each of some fragments, in the order in which their names first come. -/
def spreadsOfEach (names : List Name) (items : List Selection) : List Selection :=
  names.eraseDups.filterMap fun name => items.find? (·.isSpreadOf name)

theorem spreadsOfEach_cons {names : List Name} {s : Selection} {rest : List Selection}
    (h : ∀ name ∈ names, s.isSpreadOf name = false) :
    spreadsOfEach names (s :: rest) = spreadsOfEach names rest := by
  apply List.filterMap_congr
  intro name hname
  rw [List.find?_cons, h name (List.mem_eraseDups.mp hname)]

theorem spreadsOfEach_first {names : List Name} {fragment : Name} {directives : List Directive}
    {rest : List Selection} :
    spreadsOfEach (fragment :: names) (.spread fragment directives :: rest) =
      .spread fragment directives :: spreadsOfEach (names.filter (· != fragment)) rest := by
  have hself : (Selection.spread fragment directives).isSpreadOf fragment = true := by
    simp [Selection.isSpreadOf, Selection.spreadName?]
  have hothers : ∀ name ∈ names.filter (· != fragment),
      (Selection.spread fragment directives).isSpreadOf name = false := by
    intro name hname
    have hne : name ≠ fragment := by simpa using (List.mem_filter.mp hname).2
    simp [Selection.isSpreadOf, Selection.spreadName?, hne.symm]
  rw [← spreadsOfEach_cons hothers, spreadsOfEach, List.eraseDups_cons, List.filterMap_cons,
    List.find?_cons, hself]
  rfl

namespace Request

variable {s : ListSettings} {r : Request} {defs : List Fragment} {items left : List Selection}

theorem firstSpreads_eq (needed : List Name) (items : List Selection) :
    firstSpreads needed items =
      spreadsOfEach ((spreadNames items).filter needed.contains) items := by
  induction items generalizing needed with
  | nil => rfl
  | cons selection rest ih =>
    cases selection with
    | field head children => exact (ih needed).trans (spreadsOfEach_cons fun _ _ => rfl).symm
    | inline condition directives children =>
      exact (ih needed).trans (spreadsOfEach_cons fun _ _ => rfl).symm
    | spread fragment directives =>
      have hnames : spreadNames (.spread fragment directives :: rest) =
          fragment :: spreadNames rest := rfl
      rw [firstSpreads, hnames, List.filter_cons]
      split
      · have hothers : (spreadNames rest).filter (needed.filter (· != fragment)).contains =
            ((spreadNames rest).filter needed.contains).filter (· != fragment) := by
          rw [List.filter_filter]
          apply List.filter_congr
          intro name _
          rw [Bool.eq_iff_iff]
          simp [and_comm]
        rw [ih, spreadsOfEach_first, hothers]
      · rename_i hneeded
        rw [ih, spreadsOfEach_cons]
        intro name hname
        have hne : fragment ≠ name := by
          rintro rfl
          exact hneeded (List.mem_filter.mp hname).2
        simp [Selection.isSpreadOf, Selection.spreadName?, hne]

theorem firstSpreads_nil (items : List Selection) : firstSpreads [] items = [] := by
  simp [firstSpreads_eq, spreadsOfEach]

theorem firstSpreads_filter (p : Name → Bool) (items : List Selection) :
    firstSpreads ((spreadNames items).filter p) items =
      spreadsOfEach ((spreadNames items).filter p) items := by
  rw [firstSpreads_eq]
  congr 1
  apply List.filter_congr
  intro name hname
  rw [Bool.eq_iff_iff, List.contains_iff_mem, List.mem_filter]
  exact and_iff_right hname

theorem firstSpreads_singleton {name : Name} (h : name ∈ spreadNames items) :
    firstSpreads [name] items = spreadsOfEach [name] items := by
  have hsame : (spreadNames items).filter [name].contains =
      List.replicate ((spreadNames items).count name) name := by
    rw [← List.filter_beq]
    apply List.filter_congr
    intro other _
    rw [Bool.eq_iff_iff]
    simp
  obtain ⟨k, hk⟩ : ∃ k, (spreadNames items).count name = k + 1 :=
    Nat.exists_eq_succ_of_ne_zero (List.count_pos_iff.mpr h).ne'
  have honce : (List.replicate (k + 1) name).eraseDups = [name] := by
    simp [List.replicate_succ, List.eraseDups_cons]
  rw [firstSpreads_eq, hsame, hk, spreadsOfEach, spreadsOfEach, honce]
  rfl

/-- A field of an item that stays as it is: the identity, a type name, or a field asked for. -/
def StaysWhole (s : ListSettings) (r : Request) (name : Name) : Prop :=
  name = s.identityField ∨ name = typenameField ∨ name ∈ r.plain

/-- What is left of items besides spreads, in order: inline fragments, the fields that stay as they
are, and custom fields objects with the leaves asked for, if they have any. -/
inductive ItemsLeft (s : ListSettings) (r : Request) :
    List Selection → List Selection → Prop where
  | nil : ItemsLeft s r [] []
  | inline {condition : Option Name} {directives : List Directive}
      {children rest left : List Selection} (others : ItemsLeft s r rest left) :
      ItemsLeft s r (.inline condition directives children :: rest)
        (.inline condition directives children :: left)
  | whole {head : FieldHead} {children rest left : List Selection}
      (stays : r.StaysWhole s head.name) (others : ItemsLeft s r rest left) :
      ItemsLeft s r (.field head children :: rest) (.field head children :: left)
  | leaves {head : FieldHead} {children rest left : List Selection}
      (other : ¬ r.StaysWhole s head.name) (object : head.name = s.customField)
      (asked : r.keptLeaves children ≠ []) (others : ItemsLeft s r rest left) :
      ItemsLeft s r (.field head children :: rest) (.field head (r.keptLeaves children) :: left)
  | unasked {head : FieldHead} {children rest left : List Selection}
      (other : ¬ r.StaysWhole s head.name)
      (unasked : head.name = s.customField → r.keptLeaves children = [])
      (others : ItemsLeft s r rest left) : ItemsLeft s r (.field head children :: rest) left
  | spread {name : Name} {directives : List Directive} {rest left : List Selection}
      (others : ItemsLeft s r rest left) : ItemsLeft s r (.spread name directives :: rest) left

theorem narrowItem_of_staysWhole {head : FieldHead} {children : List Selection}
    (h : r.StaysWhole s head.name) :
    r.narrowItem s (.field head children) = some (.field head children) := by
  rcases h with h | h | h
  · simp [narrowItem, h]
  · simp [narrowItem, narrowField, h]
  · simp [narrowItem, narrowField_of_plain h]

theorem narrowItem_of_not_staysWhole {head : FieldHead} {children : List Selection}
    (h : ¬ r.StaysWhole s head.name) :
    r.narrowItem s (.field head children) =
      if head.name = s.customField ∧ r.keptLeaves children ≠ [] then
        some (.field head (r.keptLeaves children))
      else none := by
  simp only [StaysWhole, not_or] at h
  obtain ⟨hidentity, htype, hplain⟩ := h
  have hcustom : r.keptLeaves children ≠ [] → r.asksCustom = true := by
    intro hleaves
    obtain ⟨leaf, _, hleaf⟩ := keptLeaves_ne_nil_iff.mp hleaves
    exact asksCustom_of_mem hleaf
  by_cases hleaves : r.keptLeaves children = []
  · simp [narrowItem, narrowField, asksPlain, hidentity, htype, hplain, hleaves]
  · simp [narrowItem, narrowField, asksPlain, hidentity, htype, hplain, hleaves, hcustom hleaves]

theorem itemsLeft_iff : ItemsLeft s r items left ↔ left = items.filterMap (r.narrowItem s) := by
  constructor
  · intro h
    induction h with
    | nil => rfl
    | inline _ ih => simp [narrowItem, ih]
    | whole stays _ ih => simp [narrowItem_of_staysWhole stays, ih]
    | leaves other object asked _ ih =>
      simp [narrowItem_of_not_staysWhole other, object, asked, ih]
    | @unasked head children rest left other unasked _ ih =>
      have hnone : ¬ (head.name = s.customField ∧ r.keptLeaves children ≠ []) := by
        simpa using unasked
      rw [List.filterMap_cons, narrowItem_of_not_staysWhole other, if_neg hnone, ih]
    | spread _ ih => exact ih
  · intro h
    subst h
    induction items with
    | nil => exact .nil
    | cons selection rest ih =>
      cases selection with
      | spread name directives => exact .spread ih
      | inline condition directives children => exact .inline ih
      | field head children =>
        by_cases hstays : r.StaysWhole s head.name
        · simpa [narrowItem_of_staysWhole hstays] using ItemsLeft.whole hstays ih
        · by_cases hleaves : head.name = s.customField ∧ r.keptLeaves children ≠ []
          · simpa [narrowItem_of_not_staysWhole hstays, hleaves] using
              ItemsLeft.leaves hstays hleaves.1 hleaves.2 ih
          · rw [List.filterMap_cons, narrowItem_of_not_staysWhole hstays, if_neg hleaves]
            exact .unasked hstays (by simpa using hleaves) ih

/-- A fragment provides a field that is asked for, or the object of the leaves asked for if there
are any, and the items do not select it themselves. -/
def Needed (s : ListSettings) (r : Request) (defs : List Fragment) (items : List Selection)
    (fragment : Name) : Prop :=
  ∃ x, (x ∈ r.plain ∨ r.custom ≠ [] ∧ x = s.customField) ∧ x ∉ fieldNames items ∧
    Provides defs fragment x

theorem needs_iff_needed {fragment : Name} :
    r.needs s defs items fragment = true ↔ r.Needed s defs items fragment := by
  have habsent (x : Name) : hasField x items = false ↔ x ∉ fieldNames items := by
    rw [← Bool.not_eq_true, hasField_iff]
  simp only [needs_iff, mem_missing_iff, habsent, Needed, asksCustom, Bool.not_eq_true',
    List.isEmpty_eq_false_iff, and_assoc]

instance : DecidablePred (r.Needed s defs items) := fun _ => decidable_of_iff _ needs_iff_needed

/-- Nothing but type names is left of the items, and no fragment that they spread is needed. -/
structure NothingLeft (s : ListSettings) (r : Request) (defs : List Fragment)
    (items left : List Selection) : Prop where
  selections : ∀ t ∈ left, t.fieldName? = some typenameField
  spreads : ∀ name ∈ spreadNames items, ¬ r.Needed s defs items name

/-- What items are narrowed to: what is left of them and the fragments needed; or, where nothing is,
what is left and the first fragment that provides the identity, or the identity itself in front, if
its name can stand in a document. -/
inductive NarrowsTo (s : ListSettings) (r : Request) (defs : List Fragment)
    (items : List Selection) : List Selection → Prop where
  | asked {left : List Selection} (leftover : ItemsLeft s r items left)
      (something : ¬ NothingLeft s r defs items left) :
      NarrowsTo s r defs items (left ++
        spreadsOfEach ((spreadNames items).filter fun name => r.Needed s defs items name) items)
  | provider {left : List Selection} {name : Name} (leftover : ItemsLeft s r items left)
      (nothing : NothingLeft s r defs items left)
      (first : FirstProvider defs items s.identityField name) :
      NarrowsTo s r defs items (left ++ spreadsOfEach [name] items)
  | identified {left : List Selection} (leftover : ItemsLeft s r items left)
      (nothing : NothingLeft s r defs items left)
      (absent : ∀ name ∈ spreadNames items, ¬ Provides defs name s.identityField)
      (valid : Name.isValid s.identityField = true) :
      NarrowsTo s r defs items (.leaf s.identityField :: left)
  | unidentified {left : List Selection} (leftover : ItemsLeft s r items left)
      (nothing : NothingLeft s r defs items left)
      (absent : ∀ name ∈ spreadNames items, ¬ Provides defs name s.identityField)
      (invalid : Name.isValid s.identityField = false) :
      NarrowsTo s r defs items left

theorem nothingLeft_iff_leavesBare (h : ItemsLeft s r items left) :
    NothingLeft s r defs items left ↔ r.LeavesBare s defs items := by
  have hselections : (∀ t ∈ left, t.fieldName? = some typenameField) ↔
      selectsContent (items.filterMap (r.narrowItem s)) = false := by
    rw [← Bool.not_eq_true, selectsContent_iff, ← itemsLeft_iff.mp h]
    simp
  have hspreads : (∀ name ∈ spreadNames items, ¬ r.Needed s defs items name) ↔
      ∀ name ∈ spreadNames items, ∀ x ∈ r.missing s items, ¬ Provides defs name x := by
    simp [← needs_iff_needed, needs_iff]
  constructor
  · intro h
    exact ⟨hselections.mp h.selections, hspreads.mp h.spreads⟩
  · intro h
    exact ⟨hselections.mpr h.selections, hspreads.mpr h.spreads⟩

theorem filter_needed_eq :
    (spreadNames items).filter (fun name => r.Needed s defs items name) =
      (spreadNames items).filter (r.needs s defs items) := by
  apply List.filter_congr
  intro name _
  rw [Bool.eq_iff_iff, decide_eq_true_iff, needs_iff_needed]

theorem find?_provides_eq_none_iff {x : Name} :
    (spreadNames items).find? (provides defs · x) = none ↔
      ∀ name ∈ spreadNames items, ¬ Provides defs name x := by
  simp [provides_iff]

theorem narrowedItems_of_narrowsTo {items' : List Selection}
    (h : NarrowsTo s r defs items items') : items' = r.narrowedItems s defs items := by
  cases h with
  | @asked left leftover something =>
    rw [nothingLeft_iff_leavesBare leftover] at something
    have hleft := (leavesBare_or_left s r defs items).resolve_left something
    rw [narrowedItems, narrowItems_of_left hleft, firstSpreads_filter, filter_needed_eq,
      itemsLeft_iff.mp leftover]
  | @provider left name leftover nothing first =>
    rw [nothingLeft_iff_leavesBare leftover] at nothing
    have hfirst := find?_eq_some_iff_firstProvider.mpr first
    have hmem := List.mem_of_find?_eq_some hfirst
    rw [narrowedItems, narrowItems_of_leavesBare nothing, hfirst, itemsLeft_iff.mp leftover,
      ← firstSpreads_singleton hmem]
  | @identified left leftover nothing absent valid =>
    rw [nothingLeft_iff_leavesBare leftover] at nothing
    rw [narrowedItems, narrowItems_of_leavesBare nothing, find?_provides_eq_none_iff.mpr absent,
      if_pos valid, firstSpreads_nil, List.append_nil, itemsLeft_iff.mp leftover]
  | unidentified leftover nothing absent invalid =>
    rw [nothingLeft_iff_leavesBare leftover] at nothing
    rw [narrowedItems, narrowItems_of_leavesBare nothing, find?_provides_eq_none_iff.mpr absent,
      if_neg (by simp [invalid]), firstSpreads_nil, List.append_nil, itemsLeft_iff.mp leftover]

theorem exists_narrowsTo (s : ListSettings) (r : Request) (defs : List Fragment)
    (items : List Selection) : ∃ items', NarrowsTo s r defs items items' := by
  have leftover : ItemsLeft s r items (items.filterMap (r.narrowItem s)) := itemsLeft_iff.mpr rfl
  by_cases nothing : NothingLeft s r defs items (items.filterMap (r.narrowItem s))
  · cases hfirst : (spreadNames items).find? (provides defs · s.identityField) with
    | some name =>
      exact ⟨_, .provider leftover nothing (find?_eq_some_iff_firstProvider.mp hfirst)⟩
    | none =>
      have absent := find?_provides_eq_none_iff.mp hfirst
      cases hvalid : Name.isValid s.identityField with
      | true => exact ⟨_, .identified leftover nothing absent hvalid⟩
      | false => exact ⟨_, .unidentified leftover nothing absent hvalid⟩
  · exact ⟨_, .asked leftover nothing⟩

/-- The narrowed items are the one selection set that the items may be narrowed to. -/
theorem narrowsTo_iff {items' : List Selection} :
    NarrowsTo s r defs items items' ↔ items' = r.narrowedItems s defs items := by
  constructor
  · exact narrowedItems_of_narrowsTo
  · intro h
    obtain ⟨some, hsome⟩ := exists_narrowsTo s r defs items
    rw [h, ← narrowedItems_of_narrowsTo hsome]
    exact hsome

end Request

/-- The items of a narrowed list query, where they stood, are exactly what the items of the given
one are narrowed to by the columns. -/
theorem narrow_items_exactly {s : ListSettings} {columns : List Column} {d : Document}
    {q : ListQuery} (located : ListQuery.of? s d = some q) (asked : columns ≠ []) :
    ∃ q', ListQuery.of? s (d.narrow s columns) = some q' ∧ q.SamePlace q' ∧
      ∀ items', (Request.ofColumns s.customField columns).NarrowsTo s d.fragments q.items items' ↔
        items' = q'.items := by
  rw [Document.narrow_eq asked located]
  obtain ⟨q', hq', hplace, hitems⟩ := Request.of?_sweep_narrowed
    (r := Request.ofColumns s.customField columns) located
  refine ⟨q', hq', hplace, ?_⟩
  intro items'
  rw [hitems]
  exact Request.narrowsTo_iff

/-- Items with a card spread twice, the second time under a directive, for its slug; a price under
another name that is not asked for, nor is the fragment with its currency; and two leaves under the
custom fields object, of which one is. -/
theorem narrow_items_exactly_mixed :
    let book : Selection := .inline (some "Book") [] [.leaf "pages"]
    let custom (leaves : List Name) : Selection :=
      .field ⟨none, "customFields", [], []⟩ (leaves.map .leaf)
    let items : List Selection := [.leaf typenameField, .spread "Card" [], book,
      .field ⟨some "cost", "price", [], []⟩ [], .spread "Price" [], custom ["size", "color"],
      .spread "Card" [⟨"include", []⟩], .leaf "id", .leaf "name"]
    let items' : List Selection := [.leaf typenameField, book, custom ["color"], .leaf "id",
      .leaf "name", .spread "Card" []]
    let fragments : List Fragment := [⟨"Card", "Product", [], [.spread "Link" []]⟩,
      ⟨"Link", "Product", [], [.leaf "slug"]⟩, ⟨"Price", "Product", [], [.leaf "currencyCode"]⟩]
    let columns := [Column.field "slug", Column.field "name", ⟨"customFields.color", true⟩]
    let d := plainListDocument items fragments
    ListQuery.of? {} d = some (plainListQuery items fragments) ∧ columns ≠ [] ∧
      (Request.ofColumns "customFields" columns).NarrowsTo {} fragments items items' := by
  intro book custom items items' fragments columns d
  have hlocated := of?_plainListDocument items fragments
  have hasked : columns ≠ [] := List.cons_ne_nil _ _
  have hnarrow : d.narrow {} columns = plainListDocument items' (fragments.take 2) := by
    cbv
  obtain ⟨q', hq', _, hexact⟩ := narrow_items_exactly hlocated hasked
  rw [hnarrow, of?_plainListDocument, Option.some.injEq] at hq'
  subst hq'
  exact ⟨hlocated, hasked, (hexact items').mpr rfl⟩

end QueryShaping
