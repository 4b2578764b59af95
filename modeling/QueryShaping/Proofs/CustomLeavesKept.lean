import QueryShaping.Proofs.IdentityKept

namespace QueryShaping

/-- A selection is a field of the object's name with the leaf among its children. -/
def Selection.HoldsLeaf (object leaf : Name) (s : Selection) : Prop :=
  s.fieldName? = some object ∧ leaf ∈ fieldNames s.children

def Fragment.TopHolds (object leaf : Name) (f : Fragment) : Prop :=
  ∃ t, AtTop t f.selections ∧ t.HoldsLeaf object leaf

/-- A fragment fetches a leaf: a definition of it holds the leaf at its top, or spreads there a
fragment that fetches it. -/
inductive Fetches (defs : List Fragment) (object leaf : Name) : Name → Prop where
  | here {f : Fragment} (member : f ∈ defs) (top : f.TopHolds object leaf) :
      Fetches defs object leaf f.name
  | spread {f : Fragment} {next : Name} (member : f ∈ defs) (top : f.TopLeadsTo next)
      (fetched : Fetches defs object leaf next) : Fetches defs object leaf f.name

/-- Items fetch a leaf under the object themselves or through a fragment they spread. -/
def ItemsFetch (defs : List Fragment) (items : List Selection) (object leaf : Name) : Prop :=
  (∃ t ∈ items, t.HoldsLeaf object leaf) ∨ ∃ name ∈ spreadNames items, Fetches defs object leaf name

section

variable {defs : List Fragment} {object leaf name : Name}

theorem Selection.HoldsLeaf.of_leftOf {kept t : Selection} (h : kept.HoldsLeaf object leaf)
    (left : kept.LeftOf t) : t.HoldsLeaf object leaf := by
  cases left with
  | whole => exact h
  | fewer kept =>
    obtain ⟨hname, hleaf⟩ := h
    obtain ⟨child, hchild, hchildName⟩ := List.mem_filterMap.mp hleaf
    exact ⟨hname, List.mem_filterMap.mpr ⟨child, kept child hchild, hchildName⟩⟩

theorem Fetches.provides (h : Fetches defs object leaf name) : Provides defs name object := by
  induction h with
  | here member top =>
    obtain ⟨t, ht, hname, _⟩ := top
    exact .field member ⟨t, ht, hname⟩
  | spread member top _ ih => exact .spread member top ih

theorem Fetches.map {change : Fragment → Fragment} (h : Fetches defs object leaf name)
    (hname : ∀ f, (change f).name = f.name)
    (hholds : ∀ f, f.TopHolds object leaf → (change f).TopHolds object leaf)
    (hspread : ∀ f next, f.TopLeadsTo next → Provides defs next object →
      (change f).TopLeadsTo next) : Fetches (defs.map change) object leaf name := by
  induction h with
  | @here f member top =>
    rw [← hname f]
    exact .here (List.mem_map_of_mem member) (hholds f top)
  | @spread f next member top fetched ih =>
    rw [← hname f]
    exact .spread (List.mem_map_of_mem member) (hspread f next top fetched.provides) ih

theorem Fetches.of_map {change : Fragment → Fragment}
    (h : Fetches (defs.map change) object leaf name) (hname : ∀ f, (change f).name = f.name)
    (left : ∀ f, ∀ s ∈ (change f).selections, ∃ t ∈ f.selections, s.LeftOf t) :
    Fetches defs object leaf name := by
  induction h with
  | here member top =>
    obtain ⟨f, hf, rfl⟩ := List.mem_map.mp member
    obtain ⟨t, ht, hholds⟩ := top
    obtain ⟨whole, hwhole, hleft⟩ := ht.of_leftOf (left f)
    rw [hname]
    exact .here hf ⟨whole, hwhole, hholds.of_leftOf hleft⟩
  | spread member top _ ih =>
    obtain ⟨f, hf, rfl⟩ := List.mem_map.mp member
    obtain ⟨t, ht, hspread⟩ := top
    obtain ⟨whole, hwhole, hleft⟩ := ht.of_leftOf (left f)
    rw [hname]
    exact .spread hf ⟨whole, hwhole, hleft.spreadName?_eq ▸ hspread⟩ ih

theorem Fetches.mono {defs' : List Fragment} (h : Fetches defs object leaf name)
    (hdefs : ∀ f ∈ defs, f ∈ defs') : Fetches defs' object leaf name := by
  induction h with
  | here member top => exact .here (hdefs _ member) top
  | spread member top _ ih => exact .spread (hdefs _ member) top ih

theorem fetches_dropUnusedFragments_iff {d : Document} (hr : d.Reachable name) :
    Fetches d.dropUnusedFragments.fragments object leaf name ↔
      Fetches d.fragments object leaf name := by
  constructor
  · intro h
    exact h.mono fun f hf => Document.mem_of_mem_dropUnusedFragments hf
  · intro h
    induction h with
    | here member top => exact .here (Document.mem_dropUnusedFragments member hr) top
    | spread member top _ ih =>
      exact .spread (Document.mem_dropUnusedFragments member hr) top
        (ih (.step member hr top.leadsTo))

end

namespace Request

variable {s : ListSettings} {r : Request} {defs : List Fragment} {items : List Selection}
  {leaf : Name}

theorem exists_narrowField_of_holdsLeaf {head : FieldHead} {children : List Selection}
    (hleaf : leaf ∈ r.custom) (h : (Selection.field head children).HoldsLeaf s.customField leaf) :
    ∃ kept, r.narrowField s head children = some kept ∧ kept.HoldsLeaf s.customField leaf := by
  obtain ⟨hobject, hmem⟩ := h
  have hname : head.name = s.customField := by simpa [Selection.fieldName?] using hobject
  have hcustom := asksCustom_of_mem hleaf
  obtain ⟨child, hchild, hchildName⟩ := List.mem_filterMap.mp hmem
  have hkept : child ∈ r.keptLeaves children :=
    mem_keptLeaves_iff.mpr ⟨hchild, leaf, hchildName, hleaf⟩
  have hleft : leaf ∈ fieldNames (r.keptLeaves children) :=
    List.mem_filterMap.mpr ⟨child, hkept, hchildName⟩
  unfold narrowField
  split
  · exact ⟨_, rfl, hobject, hmem⟩
  · have hsome : (r.keptLeaves children).isEmpty = false := by
      simpa using List.ne_nil_of_mem hkept
    simp only [hname, hcustom, hsome, beq_self_eq_true, Bool.and_self, if_true]
    exact ⟨_, rfl, hobject, hleft⟩

theorem mem_narrowFragment_or_whole (defs : List Fragment) {f : Fragment} {t kept : Selection}
    (hmem : t ∈ f.selections) (hpart : r.narrowPart s defs t = some kept) :
    kept ∈ (r.narrowFragment s defs f).selections ∨ r.narrowFragment s defs f = f := by
  have hkept : kept ∈ f.selections.filterMap (r.narrowPart s defs) :=
    List.mem_filterMap.mpr ⟨t, hmem, hpart⟩
  have htrims := trimsTo_narrowFragment s r defs f
  generalize r.narrowFragment s defs f = f' at htrims ⊢
  cases htrims with
  | parts _ => exact .inl hkept
  | identified _ _ _ => exact .inl (List.mem_cons_of_mem _ hkept)
  | whole _ => exact .inr rfl

theorem topHolds_narrowFragment {f : Fragment} (hleaf : leaf ∈ r.custom)
    (h : f.TopHolds s.customField leaf) :
    (r.narrowFragment s defs f).TopHolds s.customField leaf := by
  obtain ⟨t, htop, hholds⟩ := h
  rcases htop.mem_or_inline with hmem | ⟨condition, directives, children, hmem, inner⟩
  · obtain ⟨head, children, rfl, _⟩ := Selection.fieldName?_eq_some_iff.mp hholds.1
    obtain ⟨kept, hpart, hkept⟩ := exists_narrowField_of_holdsLeaf hleaf hholds
    rcases mem_narrowFragment_or_whole defs hmem hpart with hleft | hwhole
    · exact ⟨kept, .here hleft, hkept⟩
    · rw [hwhole]
      exact ⟨_, .here hmem, hholds⟩
  · have hinline : .inline condition directives children ∈
        (r.narrowFragment s defs f).selections := by
      rcases mem_narrowFragment_or_whole (r := r) (s := s) defs hmem rfl with
        hleft | hwhole
      · exact hleft
      · rw [hwhole]
        exact hmem
    exact ⟨t, .deeper hinline inner, hholds⟩

theorem fetches_trimmed_iff {name : Name} (hleaf : leaf ∈ r.custom) :
    Fetches (defs.map (r.trimmed s defs items)) s.customField leaf name ↔
      Fetches defs s.customField leaf name := by
  have hasked : r.asks s.customField s.customField = true := by
    have hcustom := asksCustom_of_mem hleaf
    simp [asks, hcustom]
  constructor
  · intro h
    exact h.of_map name_trimmed fun f _ hkept => leftOf_trimmed f hkept
  · intro h
    apply h.map name_trimmed
    · intro f hholds
      unfold trimmed
      split
      · exact topHolds_narrowFragment hleaf hholds
      · exact hholds
    · intro f next hleads hprovides
      exact topLeadsTo_trimmed hasked hleads hprovides

theorem holdsLeaf_narrowedItems_iff (hleaf : leaf ∈ r.custom) :
    (∃ t ∈ r.narrowedItems s defs items, t.HoldsLeaf s.customField leaf) ↔
      ∃ t ∈ items, t.HoldsLeaf s.customField leaf := by
  have hfirst := narrowItems_fst_cases s r defs items
  constructor
  · intro h
    obtain ⟨kept, hkept, hholds⟩ := h
    have hleft : kept ∈ items.filterMap (r.narrowItem s) := by
      rcases List.mem_append.mp hkept with hmem | hspread
      · rcases hfirst with hsame | ⟨hadded, _⟩
        · exact hsame ▸ hmem
        · rw [hadded] at hmem
          rcases List.mem_cons.mp hmem with rfl | hmem
          · exact absurd hholds.2 List.not_mem_nil
          · exact hmem
      · have hnone := fieldName?_of_mem_firstSpreads hspread
        rw [hholds.1] at hnone
        cases hnone
    obtain ⟨t, ht, hitem⟩ := List.mem_filterMap.mp hleft
    exact ⟨t, ht, hholds.of_leftOf (leftOf_of_narrowItem hitem)⟩
  · intro h
    obtain ⟨t, ht, hholds⟩ := h
    obtain ⟨head, children, rfl, _⟩ := Selection.fieldName?_eq_some_iff.mp hholds.1
    obtain ⟨kept, hitem, hkept⟩ : ∃ kept, r.narrowItem s (.field head children) = some kept ∧
        kept.HoldsLeaf s.customField leaf := by
      rw [narrowItem]
      split
      · exact ⟨_, rfl, hholds⟩
      · exact exists_narrowField_of_holdsLeaf hleaf hholds
    have hleft : kept ∈ items.filterMap (r.narrowItem s) :=
      List.mem_filterMap.mpr ⟨_, ht, hitem⟩
    refine ⟨kept, List.mem_append_left _ ?_, hkept⟩
    rcases hfirst with hsame | ⟨hadded, _⟩
    · rw [hsame]
      exact hleft
    · rw [hadded]
      exact List.mem_cons_of_mem _ hleft

/-- The items still spread a fragment: it provides a field that is asked for and missing, or it is
the first to provide the identity where nothing else would be left. -/
def KeepsSpread (s : ListSettings) (r : Request) (defs : List Fragment) (items : List Selection)
    (name : Name) : Prop :=
  (∃ x ∈ r.missing s items, Provides defs name x) ∨
    r.LeavesBare s defs items ∧ FirstProvider defs items s.identityField name

theorem narrowItems_snd_of_bare (hbare : r.LeavesBare s defs items) :
    (r.narrowItems s defs items).2 =
      ((spreadNames items).find? (provides defs · s.identityField)).toList := by
  rw [narrowItems_of_leavesBare hbare]
  split
  · rename_i hfirst
    rw [hfirst]
    rfl
  · rename_i hfirst
    rw [hfirst]
    rfl

theorem mem_spreadNames_narrowedItems_iff_keepsSpread {name : Name} :
    name ∈ spreadNames (r.narrowedItems s defs items) ↔
      name ∈ spreadNames items ∧ r.KeepsSpread s defs items name := by
  rw [mem_spreadNames_narrowedItems_iff, and_comm, and_congr_right_iff]
  intro hmem
  rcases leavesBare_or_left s r defs items with hbare | hleft
  · have hnone : ¬ ∃ x ∈ r.missing s items, Provides defs name x := by
      intro h
      obtain ⟨x, hx, hprovides⟩ := h
      exact hbare.spreads name hmem x hx hprovides
    rw [narrowItems_snd_of_bare hbare, Option.mem_toList,
      find?_eq_some_iff_firstProvider, KeepsSpread, or_iff_right hnone]
    exact (and_iff_right hbare).symm
  · have hno : ¬ (r.LeavesBare s defs items ∧ FirstProvider defs items s.identityField name) :=
      fun h => h.1.not_left hleft
    rw [narrowItems_of_left hleft, List.mem_filter, needs_iff, KeepsSpread, or_iff_left hno]
    exact and_iff_right hmem

theorem itemsFetch_sweep_narrowed_iff {d : Document} {q : ListQuery}
    (located : ListQuery.of? s d = some q) (hleaf : leaf ∈ r.custom) :
    ItemsFetch (r.narrowed s d q).sweep.fragments (r.narrowedItems s d.fragments q.items)
        s.customField leaf ↔
      (∃ t ∈ q.items, t.HoldsLeaf s.customField leaf) ∨
        ∃ name ∈ spreadNames q.items, r.KeepsSpread s d.fragments q.items name ∧
          Fetches d.fragments s.customField leaf name := by
  rw [ItemsFetch, holdsLeaf_narrowedItems_iff hleaf]
  apply or_congr_right
  apply exists_congr
  intro name
  rw [mem_spreadNames_narrowedItems_iff_keepsSpread, and_assoc]
  apply and_congr_right
  intro hmem
  apply and_congr_right
  intro hkeeps
  have hspread := mem_spreadNames_narrowedItems_iff_keepsSpread.mpr ⟨hmem, hkeeps⟩
  rw [Document.sweep, Document.fragments_dropUnusedVariables,
    fetches_dropUnusedFragments_iff (reachable_of_narrowedItems located hspread),
    fragments_narrowed located, fetches_trimmed_iff hleaf]

theorem keepsSpread_of_fetches {name : Name} (hleaf : leaf ∈ r.custom)
    (hobject : hasField s.customField items = false)
    (h : Fetches defs s.customField leaf name) : r.KeepsSpread s defs items name := by
  have hcustom := asksCustom_of_mem hleaf
  exact .inl ⟨s.customField, mem_missing_iff.mpr ⟨.inr ⟨hcustom, rfl⟩, hobject⟩, h.provides⟩

end Request

/-- A leaf asked for under the custom fields object. The narrowed items fetch it exactly if the
items fetched it, unless they select the object themselves without the leaf, and no fragment they
still spread fetches it: such a fragment provides another field that is asked for and missing, or
stands in for the identity on items that would be left bare. -/
theorem narrow_keeps_leaf_iff {s : ListSettings} {columns : List Column} {d : Document}
    {q : ListQuery} {c : Column} (located : ListQuery.of? s d = some q) (asked : c ∈ columns)
    (custom : c.isCustom = true) :
    ∃ q', ListQuery.of? s (d.narrow s columns) = some q' ∧ q.SamePlace q' ∧
      (ItemsFetch (d.narrow s columns).fragments q'.items s.customField
          (customLeaf s.customField c.name) ↔
        ItemsFetch d.fragments q.items s.customField (customLeaf s.customField c.name) ∧
          (hasField s.customField q.items = true →
            (∃ t ∈ q.items, t.HoldsLeaf s.customField (customLeaf s.customField c.name)) ∨
            ∃ name ∈ spreadNames q.items,
              (Request.ofColumns s.customField columns).KeepsSpread s d.fragments q.items name ∧
                Fetches d.fragments s.customField (customLeaf s.customField c.name) name)) := by
  have hleaf : customLeaf s.customField c.name ∈ (Request.ofColumns s.customField columns).custom :=
    Request.mem_custom_ofColumns_iff.mpr ⟨c, asked, custom, rfl⟩
  rw [Document.narrow_eq (List.ne_nil_of_mem asked) located]
  obtain ⟨q', hq', hplace, hitems⟩ := Request.of?_sweep_narrowed
    (r := Request.ofColumns s.customField columns) located
  refine ⟨q', hq', hplace, ?_⟩
  rw [hitems, Request.itemsFetch_sweep_narrowed_iff located hleaf]
  constructor
  · intro h
    refine ⟨?_, fun _ => h⟩
    rcases h with hholds | ⟨name, hmem, _, hfetches⟩
    · exact .inl hholds
    · exact .inr ⟨name, hmem, hfetches⟩
  · intro h
    obtain ⟨hfetch, hkept⟩ := h
    cases hobject : hasField s.customField q.items with
    | true => exact hkept hobject
    | false =>
      rcases hfetch with hholds | ⟨name, hmem, hfetches⟩
      · exact .inl hholds
      · exact .inr ⟨name, hmem, Request.keepsSpread_of_fetches hleaf hobject hfetches, hfetches⟩

def splitItems : List Selection :=
  [.leaf "id", .field ⟨none, "customFields", [], []⟩ [.leaf "warranty"], .spread "Details" []]

def details : Fragment :=
  ⟨"Details", "Product", [], [.leaf "name", .field ⟨none, "customFields", [], []⟩ [.leaf "color"]]⟩

theorem fetches_details {defs : List Fragment} (member : details ∈ defs) :
    Fetches defs "customFields" "color" "Details" := by
  have hholds : (Selection.field ⟨none, "customFields", [], []⟩ [.leaf "color"]).HoldsLeaf
      "customFields" "color" := ⟨rfl, List.mem_singleton_self _⟩
  exact .here member ⟨_, .here (List.mem_cons_of_mem _ (List.mem_singleton_self _)), hholds⟩

/-- The leaf is kept with a fragment that is needed for a plain field. -/
theorem narrow_keeps_leaf_beside_plain :
    let d := plainListDocument splitItems [details]
    let color : Column := ⟨"customFields.color", true⟩
    let columns := [Column.field "name", color]
    ListQuery.of? {} d = some (plainListQuery splitItems [details]) ∧ color ∈ columns ∧
      color.isCustom = true ∧ ∃ q', ListQuery.of? {} (d.narrow {} columns) = some q' ∧
        ItemsFetch (d.narrow {} columns).fragments q'.items "customFields" "color" := by
  intro d color columns
  have hlocated := of?_plainListDocument splitItems [details]
  have hasked : color ∈ columns := List.mem_cons_of_mem _ (List.mem_singleton_self _)
  have hcustom : color.isCustom = true := rfl
  have hleaf : customLeaf "customFields" color.name = "color" := by decide
  obtain ⟨q', hq', _, hiff⟩ := narrow_keeps_leaf_iff hlocated hasked hcustom
  refine ⟨hlocated, hasked, hcustom, q', hq', ?_⟩
  rw [hleaf] at hiff
  have hspread : "Details" ∈ spreadNames splitItems := List.mem_singleton_self _
  have hfetches : Fetches d.fragments "customFields" "color" "Details" :=
    fetches_details (List.mem_singleton_self _)
  have hmissing : "name" ∈ (Request.ofColumns "customFields" columns).missing {} splitItems :=
    Request.mem_missing_iff.mpr ⟨.inl (by decide), by decide⟩
  have hprovides : Provides d.fragments "Details" "name" :=
    .field (f := details) (List.mem_singleton_self _)
      ⟨.leaf "name", .here List.mem_cons_self, rfl⟩
  apply hiff.mpr
  refine ⟨.inr ⟨_, hspread, hfetches⟩, ?_⟩
  intro _
  exact .inr ⟨_, hspread, .inl ⟨_, hmissing, hprovides⟩, hfetches⟩

/-- Without the plain column the fragment counts as not needed, and the leaf goes with it. -/
theorem narrow_loses_leaf_alone :
    let d := plainListDocument splitItems [details]
    let columns : List Column := [⟨"customFields.color", true⟩]
    ListQuery.of? {} d = some (plainListQuery splitItems [details]) ∧
      ItemsFetch d.fragments splitItems "customFields" "color" ∧
      ∃ q', ListQuery.of? {} (d.narrow {} columns) = some q' ∧
        ¬ ItemsFetch (d.narrow {} columns).fragments q'.items "customFields" "color" := by
  intro d columns
  have hlocated := of?_plainListDocument splitItems [details]
  have hfetches : Fetches d.fragments "customFields" "color" "Details" :=
    fetches_details (List.mem_singleton_self _)
  have hnarrow : d.narrow {} columns = plainListDocument [.leaf "id"] [] := by
    cbv
  refine ⟨hlocated, .inr ⟨_, List.mem_singleton_self _, hfetches⟩, ?_⟩
  rw [hnarrow]
  refine ⟨_, of?_plainListDocument _ _, ?_⟩
  intro h
  rcases h with ⟨t, ht, hname, _⟩ | ⟨name, hname, _⟩
  · obtain rfl := List.mem_singleton.mp ht
    simp [Selection.leaf, Selection.fieldName?] at hname
  · exact List.not_mem_nil hname

end QueryShaping
