import Mathlib.Data.List.Forall2
import Mathlib.Data.List.Perm.Subperm
import QueryShaping.Proofs.Occurrence

namespace QueryShaping

theorem exists_mem_of_forall₂ {α β : Type} {R : α → β → Prop} {l : List α} {l' : List β} {a : α}
    (h : List.Forall₂ R l l') (member : a ∈ l) : ∃ b ∈ l', R a b := by
  induction h with
  | nil => cases member
  | cons first _ ih =>
    rcases List.mem_cons.mp member with rfl | hrest
    · exact ⟨_, List.mem_cons_self, first⟩
    · obtain ⟨b, hb, hab⟩ := ih hrest
      exact ⟨b, List.mem_cons_of_mem _ hb, hab⟩

/-- What remains of a selection: a spread as it is, a field or an inline fragment with what remains
of the selections below it, each of them taken once. Where something was below, something is. -/
inductive Selection.RemainsOf : Selection → Selection → Prop where
  | spread {fragment : Name} {directives : List Directive} :
      RemainsOf (.spread fragment directives) (.spread fragment directives)
  | field {head : FieldHead} {left taken children : List Selection}
      (once : taken.Subperm children) (remain : List.Forall₂ RemainsOf left taken)
      (filled : children ≠ [] → left ≠ []) : RemainsOf (.field head left) (.field head children)
  | inline {condition : Option Name} {directives : List Directive}
      {left taken children : List Selection} (once : taken.Subperm children)
      (remain : List.Forall₂ RemainsOf left taken) (filled : children ≠ [] → left ≠ []) :
      RemainsOf (.inline condition directives left) (.inline condition directives children)

/-- What remains of a selection set: what remains of some of its selections, each taken once. -/
def RemainAmong (left set : List Selection) : Prop :=
  ∃ taken, taken.Subperm set ∧ List.Forall₂ Selection.RemainsOf left taken

theorem Selection.RemainsOf.refl : ∀ s : Selection, s.RemainsOf s
  | .spread _ _ => .spread
  | .field _ children => .field (.refl children) (refl_all children) id
  | .inline _ _ children => .inline (.refl children) (refl_all children) id
where
  refl_all : ∀ set : List Selection, List.Forall₂ RemainsOf set set
    | [] => .nil
    | s :: rest => .cons (refl s) (refl_all rest)

theorem Selection.RemainsOf.fieldName?_eq {kept t : Selection} (h : kept.RemainsOf t) :
    kept.fieldName? = t.fieldName? := by
  cases h <;> rfl

theorem Selection.RemainsOf.spreadName?_eq {kept t : Selection} (h : kept.RemainsOf t) :
    kept.spreadName? = t.spreadName? := by
  cases h <;> rfl

/-- A selection is not an inline fragment around nothing. -/
def Selection.Filled : Selection → Prop
  | .inline _ _ children => children ≠ []
  | _ => True

theorem Selection.RemainsOf.filled {kept t : Selection} (h : kept.RemainsOf t) (ht : t.Filled) :
    kept.Filled := by
  cases h with
  | inline _ _ filled => exact filled ht
  | _ => trivial

theorem Selection.RemainsOf.children {kept t : Selection} (h : kept.RemainsOf t) :
    RemainAmong kept.children t.children ∧ (t.children ≠ [] → kept.children ≠ []) := by
  cases h with
  | spread => exact ⟨⟨[], .refl [], .nil⟩, id⟩
  | field once remain filled => exact ⟨⟨_, once, remain⟩, filled⟩
  | inline once remain filled => exact ⟨⟨_, once, remain⟩, filled⟩

namespace RemainAmong

variable {left set : List Selection}

theorem refl (set : List Selection) : RemainAmong set set :=
  ⟨set, .refl set, Selection.RemainsOf.refl.refl_all set⟩

theorem cons {kept t : Selection} (first : kept.RemainsOf t) (rest : RemainAmong left set) :
    RemainAmong (kept :: left) (t :: set) := by
  obtain ⟨taken, once, remain⟩ := rest
  exact ⟨t :: taken, (List.subperm_cons t).mpr once, .cons first remain⟩

theorem around {before after : List Selection} {kept t : Selection} (h : kept.RemainsOf t) :
    RemainAmong (before ++ kept :: after) (before ++ t :: after) := by
  refine ⟨_, .refl _, List.rel_append ?_ (.cons h ?_)⟩
  · exact Selection.RemainsOf.refl.refl_all before
  · exact Selection.RemainsOf.refl.refl_all after

theorem exists_mem {s : Selection} (h : RemainAmong left set) (member : s ∈ left) :
    ∃ t ∈ set, s.RemainsOf t := by
  obtain ⟨taken, once, remain⟩ := h
  obtain ⟨t, ht, hs⟩ := exists_mem_of_forall₂ remain member
  exact ⟨t, once.subset ht, hs⟩

theorem exists_within {s : Selection} (h : RemainAmong left set) (within : Within s left) :
    ∃ t, Within t set ∧ s.RemainsOf t := by
  induction within generalizing set with
  | here member =>
    obtain ⟨t, ht, hs⟩ := h.exists_mem member
    exact ⟨t, .here ht, hs⟩
  | deeper member _ ih =>
    obtain ⟨t, ht, hs⟩ := h.exists_mem member
    obtain ⟨t', ht', hs'⟩ := ih hs.children.1
    exact ⟨t', .deeper ht ht', hs'⟩

theorem nodup_filterMap {name? : Selection → Option Name} (h : RemainAmong left set)
    (same : ∀ {kept t : Selection}, kept.RemainsOf t → name? kept = name? t)
    (once : (set.filterMap name?).Nodup) : (left.filterMap name?).Nodup := by
  obtain ⟨taken, ⟨chosen, perm, sublist⟩, remain⟩ := h
  have hnames : left.filterMap name? = taken.filterMap name? := by
    clear perm
    induction remain with
    | nil => rfl
    | cons first _ ih => simp only [List.filterMap_cons, same first, ih]
  rw [hnames, ← (perm.filterMap name?).nodup_iff]
  exact once.sublist (sublist.filterMap name?)

end RemainAmong

/-- No two fields directly in a selection set have one name, and no two spreads one fragment. -/
structure NamesOnce (set : List Selection) : Prop where
  fields : (fieldNames set).Nodup
  spreads : (spreadNames set).Nodup

/-- Nothing comes twice in a selection set, nor directly in any at any depth below it. -/
def OnceThroughout (set : List Selection) : Prop :=
  NamesOnce set ∧ ∀ s, Within s set → NamesOnce s.children

theorem NamesOnce.of_remainAmong {left set : List Selection} (h : NamesOnce set)
    (remain : RemainAmong left set) : NamesOnce left where
  fields := remain.nodup_filterMap Selection.RemainsOf.fieldName?_eq h.fields
  spreads := remain.nodup_filterMap Selection.RemainsOf.spreadName?_eq h.spreads

theorem OnceThroughout.of_remainAmong {left set : List Selection} (h : OnceThroughout set)
    (remain : RemainAmong left set) : OnceThroughout left := by
  refine ⟨h.1.of_remainAmong remain, ?_⟩
  intro s hs
  obtain ⟨t, ht, hremains⟩ := remain.exists_within hs
  exact (h.2 t ht).of_remainAmong hremains.children.1

theorem onceThroughout_nil : OnceThroughout [] :=
  ⟨⟨List.nodup_nil, List.nodup_nil⟩, fun _ h => absurd h not_found_nil⟩

theorem onceThroughout_iff {set : List Selection} :
    OnceThroughout set ↔ NamesOnce set ∧ ∀ t ∈ set, OnceThroughout t.children := by
  constructor
  · intro h
    refine ⟨h.1, ?_⟩
    intro t ht
    exact ⟨h.2 t (.here ht), fun s hs => h.2 s (.deeper ht hs)⟩
  · intro h
    obtain ⟨htop, hbelow⟩ := h
    refine ⟨htop, ?_⟩
    intro s hs
    cases hs with
    | here member => exact (hbelow s member).1
    | deeper member inner => exact (hbelow _ member).2 s inner

mutual

def Selection.all : Selection → List Selection
  | .field head children => .field head children :: allOf children
  | .spread fragment directives => [.spread fragment directives]
  | .inline condition directives children => .inline condition directives children :: allOf children

def allOf : List Selection → List Selection
  | [] => []
  | s :: rest => s.all ++ allOf rest

end

mutual

theorem Selection.mem_all_iff {s : Selection} : ∀ t : Selection,
    s ∈ t.all ↔ s = t ∨ Within s t.children
  | .field head children => by
    simp [Selection.all, Selection.children, mem_allOf_iff children]
  | .spread fragment directives => by
    simp [Selection.all, Selection.children, not_found_nil]
  | .inline condition directives children => by
    simp [Selection.all, Selection.children, mem_allOf_iff children]

theorem mem_allOf_iff {s : Selection} : ∀ set : List Selection, s ∈ allOf set ↔ Within s set
  | [] => by simp [allOf, not_found_nil]
  | t :: rest => by
    simp only [allOf, List.mem_append, Selection.mem_all_iff t, mem_allOf_iff rest, Within,
      found_cons_iff, or_assoc]

end

instance : DecidablePred Selection.Filled
  | .field _ _ => .isTrue trivial
  | .spread _ _ => .isTrue trivial
  | .inline _ _ children => inferInstanceAs (Decidable (children ≠ []))

instance : DecidablePred NamesOnce := fun set =>
  decidable_of_iff ((fieldNames set).Nodup ∧ (spreadNames set).Nodup)
    ⟨fun h => ⟨h.1, h.2⟩, fun h => ⟨h.fields, h.spreads⟩⟩

instance : DecidablePred OnceThroughout := fun set =>
  decidable_of_iff (NamesOnce set ∧ ∀ s ∈ allOf set, NamesOnce s.children)
    (by simp only [OnceThroughout, mem_allOf_iff])

/-- What remains of a definition: the definition with what remains of its selections, some of them
at least. -/
structure Fragment.RemainsOf (f' f : Fragment) : Prop where
  same : f' = { f with selections := f'.selections }
  selections : RemainAmong f'.selections f.selections
  filled : f.selections ≠ [] → f'.selections ≠ []

theorem Fragment.RemainsOf.refl (f : Fragment) : f.RemainsOf f :=
  ⟨rfl, .refl _, id⟩

namespace Document

/-- What remains of a document: all its operations with what remains of their selections, and what
remains of some of its fragment definitions, in order. -/
structure RemainsOf (d' d : Document) : Prop where
  operations : List.Forall₂ (fun op' op => RemainAmong op'.selections op.selections)
    d'.operations d.operations
  fragments : List.SublistForall₂ Fragment.RemainsOf d'.fragments d.fragments

def selectionSets (d : Document) : List (List Selection) :=
  d.operations.map (·.selections) ++ d.fragments.map (·.selections)

/-- Every fragment definition and every inline fragment selects something. -/
structure Filled (d : Document) : Prop where
  fragments : ∀ f ∈ d.fragments, f.selections ≠ []
  inlines : ∀ set ∈ d.selectionSets, ∀ s, Within s set → s.Filled

/-- In no selection set, at any depth, does a field name or a spread come twice. -/
def NamesOnce (d : Document) : Prop :=
  ∀ set ∈ d.selectionSets, OnceThroughout set

instance : DecidablePred Filled := fun d =>
  decidable_of_iff ((∀ f ∈ d.fragments, f.selections ≠ []) ∧
      ∀ set ∈ d.selectionSets, ∀ s ∈ allOf set, s.Filled)
    ⟨fun h => ⟨h.1, fun set hset s hs => h.2 set hset s ((mem_allOf_iff set).mpr hs)⟩,
      fun h => ⟨h.fragments, fun set hset s hs => h.inlines set hset s ((mem_allOf_iff set).mp hs)⟩⟩

instance : DecidablePred NamesOnce := fun d =>
  inferInstanceAs (Decidable (∀ set ∈ d.selectionSets, OnceThroughout set))

namespace RemainsOf

variable {d d' : Document}

theorem exists_fragment (h : d'.RemainsOf d) {f' : Fragment} (member : f' ∈ d'.fragments) :
    ∃ f ∈ d.fragments, f'.RemainsOf f := by
  obtain ⟨taken, remain, sublist⟩ := List.sublistForall₂_iff.mp h.fragments
  obtain ⟨f, hf, hremains⟩ := exists_mem_of_forall₂ remain member
  exact ⟨f, sublist.subset hf, hremains⟩

theorem exists_selectionSet (h : d'.RemainsOf d) {set' : List Selection}
    (member : set' ∈ d'.selectionSets) : ∃ set ∈ d.selectionSets, RemainAmong set' set := by
  rcases List.mem_append.mp member with hop | hfragment
  · obtain ⟨op', hop', rfl⟩ := List.mem_map.mp hop
    obtain ⟨op, hop, hremain⟩ := exists_mem_of_forall₂ h.operations hop'
    exact ⟨_, List.mem_append_left _ (List.mem_map_of_mem hop), hremain⟩
  · obtain ⟨f', hf', rfl⟩ := List.mem_map.mp hfragment
    obtain ⟨f, hf, hremains⟩ := h.exists_fragment hf'
    exact ⟨_, List.mem_append_right _ (List.mem_map_of_mem hf), hremains.selections⟩

theorem filled (h : d'.RemainsOf d) (hd : d.Filled) : d'.Filled where
  fragments := by
    intro f' hf'
    obtain ⟨f, hf, hremains⟩ := h.exists_fragment hf'
    exact hremains.filled (hd.fragments f hf)
  inlines := by
    intro set' hset' s hwithin
    obtain ⟨set, hset, hremain⟩ := h.exists_selectionSet hset'
    obtain ⟨t, ht, hremains⟩ := hremain.exists_within hwithin
    exact hremains.filled (hd.inlines set hset t ht)

theorem namesOnce (h : d'.RemainsOf d) (hd : d.NamesOnce) : d'.NamesOnce := by
  intro set' hset'
  obtain ⟨set, hset, hremain⟩ := h.exists_selectionSet hset'
  exact (hd set hset).of_remainAmong hremain

end RemainsOf

end Document

end QueryShaping
