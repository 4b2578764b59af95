import QueryShaping.Graft.Merge
import QueryShaping.Proofs.Occurrence

namespace QueryShaping

/-- What a selection is merged by: a field by its name, a spread by its fragment. -/
inductive MergeKey where
  | field (name : Name)
  | spread (fragment : Name)
  deriving DecidableEq

namespace Selection

/-- An inline fragment has no key, since nothing is merged into it. -/
def key? : Selection → Option MergeKey
  | .field head _ => some (.field head.name)
  | .spread fragment _ => some (.spread fragment)
  | .inline _ _ _ => none

/-- Whether a selection that is there takes in one that is added. -/
def takes (s t : Selection) : Bool :=
  t.key?.isSome && s.key? == t.key?

theorem takes_iff {s t : Selection} :
    s.takes t = true ↔ ∃ key, s.key? = some key ∧ t.key? = some key := by
  rw [takes, Bool.and_eq_true, beq_iff_eq, Option.isSome_iff_exists]
  constructor
  · intro h
    obtain ⟨⟨key, ht⟩, hs⟩ := h
    exact ⟨key, hs.trans ht, ht⟩
  · intro h
    obtain ⟨key, hs, ht⟩ := h
    exact ⟨⟨key, ht⟩, hs.trans ht.symm⟩

theorem isFieldNamed_iff {name : Name} {s : Selection} :
    s.isFieldNamed name = true ↔ s.key? = some (.field name) := by
  cases s <;> simp [isFieldNamed, fieldName?, key?]

theorem isSpreadOf_iff {fragment : Name} {s : Selection} :
    s.isSpreadOf fragment = true ↔ s.key? = some (.spread fragment) := by
  cases s <;> simp [isSpreadOf, spreadName?, key?]

end Selection

def mergeKeys (set : List Selection) : List MergeKey :=
  set.filterMap Selection.key?

theorem field_mem_mergeKeys_iff {name : Name} {set : List Selection} :
    .field name ∈ mergeKeys set ↔ name ∈ fieldNames set := by
  rw [← hasField_iff, hasField, List.any_eq_true, mergeKeys, List.mem_filterMap]
  simp only [Selection.isFieldNamed_iff]

theorem spread_mem_mergeKeys_iff {fragment : Name} {set : List Selection} :
    .spread fragment ∈ mergeKeys set ↔ fragment ∈ spreadNames set := by
  rw [← hasSpread_iff, hasSpread, List.any_eq_true, mergeKeys, List.mem_filterMap]
  simp only [Selection.isSpreadOf_iff]

def underName (name : Name) (set : List Selection) : List Selection :=
  (set.filter (·.isFieldNamed name)).flatMap (·.children)

theorem underName_append (name : Name) (set more : List Selection) :
    underName name (set ++ more) = underName name set ++ underName name more := by
  simp [underName]

theorem underName_cons (name : Name) (s : Selection) (rest : List Selection) :
    underName name (s :: rest) =
      (if s.isFieldNamed name then s.children else []) ++ underName name rest := by
  rw [underName, List.filter_cons]
  split <;> rfl

/-- A selection after a merge: a field that selects something has merged into it what the added
fields of its name select, and any other selection is as it was. -/
def Selection.grownBy (added : List Selection) : Selection → Selection
  | .field head children =>
    .field head
      (if children.isEmpty then [] else mergeSelections children (underName head.name added))
  | s => s

theorem mergeSelections_nil_right (base : List Selection) : mergeSelections base [] = base := by
  rw [mergeSelections]

theorem mergeSelections_append (base added more : List Selection) :
    mergeSelections base (added ++ more) = mergeSelections (mergeSelections base added) more := by
  simp only [mergeSelections_eq_foldl, List.foldl_append]

theorem mergeSelections_nil_cons (s : Selection) (added : List Selection) :
    mergeSelections [] (s :: added) = mergeSelections [s] added := by
  cases s <;> rfl

namespace Selection

theorem key?_grownBy (s : Selection) (added : List Selection) : (s.grownBy added).key? = s.key? := by
  cases s <;> rfl

theorem takes_grownBy (s t : Selection) (added : List Selection) :
    (s.grownBy added).takes t = s.takes t := by
  rw [takes, takes, key?_grownBy]

theorem grownBy_nil (s : Selection) : s.grownBy [] = s := by
  cases s with
  | field head children =>
    rw [grownBy, underName, List.filter_nil, List.flatMap_nil, mergeSelections_nil_right]
    cases children <;> rfl
  | spread fragment directives => rfl
  | inline condition directives children => rfl

theorem grownBy_filter (s : Selection) (added : List Selection) (p : Selection → Bool)
    (taken : ∀ t ∈ added, s.takes t = true → p t = true) :
    s.grownBy (added.filter p) = s.grownBy added := by
  cases s with
  | field head children =>
    have hsame : underName head.name (added.filter p) = underName head.name added := by
      rw [underName, underName, List.filter_filter]
      congr 1
      apply List.filter_congr
      intro t ht
      rw [Bool.and_eq_left_iff_imp]
      intro hname
      exact taken t ht (takes_iff.mpr ⟨_, rfl, isFieldNamed_iff.mp hname⟩)
    rw [grownBy, grownBy, hsame]
  | spread fragment directives => rfl
  | inline condition directives children => rfl

end Selection

theorem growField_cons (name : Name) (grow : List Selection → List Selection) (s : Selection)
    (rest : List Selection) (h : s.isFieldNamed name = false) :
    growField name grow (s :: rest) = s :: growField name grow rest := by
  cases s with
  | field head children =>
    have hne : (head.name == name) = false := by
      simpa [Selection.isFieldNamed, Selection.fieldName?] using h
    simp [growField, hne]
  | spread fragment directives => rfl
  | inline condition directives children => rfl

theorem mergeSelection_cons (s t : Selection) (base : List Selection) :
    mergeSelection (s :: base) t =
      if s.takes t then s.grownBy [t] :: base else s :: mergeSelection base t := by
  cases t with
  | field head children =>
    have htakes : s.takes (.field head children) = s.isFieldNamed head.name := by
      rw [Bool.eq_iff_iff, Selection.isFieldNamed_iff, Selection.takes_iff]
      simp [Selection.key?, eq_comm]
    rw [htakes]
    split
    · rename_i hname
      obtain ⟨own, old, rfl, hsame⟩ :=
        Selection.fieldName?_eq_some_iff.mp (beq_iff_eq.mp hname)
      have hunder : underName own.name [.field head children] = children := by
        simp [underName, Selection.isFieldNamed, Selection.fieldName?, hsame, Selection.children]
      -- Nothing added to what there is, and anything added to a leaf, leave the field as it is.
      rw [mergeSelection, growField, Selection.grownBy, hunder]
      simp only [hasField, List.any_cons, hname, Bool.true_or, if_true, hsame, beq_self_eq_true]
      cases old <;> cases children <;> simp [mergeSelections_nil_right]
    · rename_i hname
      rw [Bool.not_eq_true] at hname
      rw [mergeSelection, mergeSelection, growField_cons _ _ _ _ hname]
      rw [hasField, List.any_cons, hname, Bool.false_or, ← hasField]
      split <;> rfl
  | spread fragment directives =>
    have htakes : s.takes (.spread fragment directives) = s.isSpreadOf fragment := by
      rw [Bool.eq_iff_iff, Selection.isSpreadOf_iff, Selection.takes_iff]
      simp [Selection.key?, eq_comm]
    rw [htakes]
    split
    · rename_i hname
      obtain ⟨own, rfl⟩ := Selection.spreadName?_eq_some_iff.mp (beq_iff_eq.mp hname)
      rw [mergeSelection, hasSpread, List.any_cons, hname]
      rfl
    · rename_i hname
      rw [Bool.not_eq_true] at hname
      rw [mergeSelection, mergeSelection]
      rw [hasSpread, List.any_cons, hname, Bool.false_or, ← hasSpread]
      split <;> rfl
  | inline condition directives children => rfl

theorem mergeSelections_ne_nil {base : List Selection} (h : base ≠ []) (added : List Selection) :
    mergeSelections base added ≠ [] := by
  induction added generalizing base with
  | nil => rwa [mergeSelections_nil_right]
  | cons t rest ih =>
    obtain ⟨s, others, rfl⟩ := List.exists_cons_of_ne_nil h
    rw [mergeSelections, mergeSelection_cons]
    apply ih
    split <;> exact List.cons_ne_nil _ _

namespace Selection

theorem grownBy_grownBy (s : Selection) (added more : List Selection) :
    (s.grownBy added).grownBy more = s.grownBy (added ++ more) := by
  cases s with
  | field head children =>
    by_cases hnil : children = []
    · simp [grownBy, hnil]
    · simp [grownBy, hnil, mergeSelections_ne_nil, underName_append, mergeSelections_append]
  | spread fragment directives => rfl
  | inline condition directives children => rfl

end Selection

/-- A merge is read off the base: the first selection grows by what it takes in, and the rest of the
base is merged with what that leaves. -/
theorem mergeSelections_cons (s : Selection) (base added : List Selection) :
    mergeSelections (s :: base) added =
      s.grownBy added :: mergeSelections base (added.filter fun t => !s.takes t) := by
  induction added generalizing s base with
  | nil => rw [s.grownBy_nil, List.filter_nil, mergeSelections_nil_right, mergeSelections_nil_right]
  | cons t rest ih =>
    rw [mergeSelections, mergeSelection_cons, List.filter_cons]
    split
    · rename_i htakes
      simp only [ih, Selection.takes_grownBy, Selection.grownBy_grownBy, htakes]
      rfl
    · rename_i htakes
      -- A selection that is not taken in goes past the first and plays no part in its growth.
      have hgrow : s.grownBy (t :: rest) = s.grownBy rest := by
        rw [← s.grownBy_filter (t :: rest) s.takes fun _ _ h => h,
          ← s.grownBy_filter rest s.takes fun _ _ h => h, List.filter_cons_of_neg htakes]
      simp [ih, htakes, hgrow, mergeSelections]

theorem sizeOf_append (set more : List Selection) :
    sizeOf (set ++ more) + 1 = sizeOf set + sizeOf more := by
  induction set with
  | nil =>
    rw [List.nil_append, List.nil.sizeOf_spec]
    omega
  | cons s rest ih =>
    rw [List.cons_append, List.cons.sizeOf_spec, List.cons.sizeOf_spec]
    omega

theorem sizeOf_filter_le (p : Selection → Bool) (set : List Selection) :
    sizeOf (set.filter p) ≤ sizeOf set := by
  induction set with
  | nil => exact Nat.le_refl _
  | cons s rest ih =>
    rw [List.filter_cons, List.cons.sizeOf_spec]
    split
    · rw [List.cons.sizeOf_spec]
      omega
    · omega

theorem Selection.sizeOf_children_le (s : Selection) : sizeOf s.children ≤ sizeOf s := by
  cases s with
  | field head children =>
    rw [field.sizeOf_spec, Selection.children]
    omega
  | spread fragment directives =>
    rw [spread.sizeOf_spec, Selection.children, List.nil.sizeOf_spec]
    omega
  | inline condition directives children =>
    rw [inline.sizeOf_spec, Selection.children]
    omega

theorem sizeOf_underName_le (name : Name) (set : List Selection) :
    sizeOf (underName name set) ≤ sizeOf set := by
  induction set with
  | nil => exact Nat.le_refl _
  | cons s rest ih =>
    have happend := sizeOf_append s.children (underName name rest)
    have hchildren := s.sizeOf_children_le
    rw [underName_cons, List.cons.sizeOf_spec]
    split
    · omega
    · rw [List.nil_append]
      omega

/-- Induction along the equations of a merge: into nothing, the first selection that is added; into
a selection set, what its first selection takes in and what it leaves. -/
theorem mergeSelections_induction {motive : List Selection → List Selection → Prop}
    (nil : motive [] [])
    (first : ∀ s added, motive [s] added → motive [] (s :: added))
    (cons : ∀ s base added,
      (∀ head children, s = .field head children → motive children (underName head.name added)) →
      motive base (added.filter fun t => !s.takes t) → motive (s :: base) added) :
    ∀ base added, motive base added
  | [], [] => nil
  | [], s :: added => first s added (mergeSelections_induction nil first cons [s] added)
  | s :: base, added => by
    apply cons
    · intro head children hs
      have hchildren : sizeOf children < sizeOf s := by
        rw [hs, Selection.field.sizeOf_spec]
        omega
      have hunder := sizeOf_underName_le head.name added
      exact mergeSelections_induction nil first cons children _
    · have hleft := sizeOf_filter_le (fun t => !s.takes t) added
      exact mergeSelections_induction nil first cons base _
termination_by base added => sizeOf base + 2 * sizeOf added

section

variable (p : Option MergeKey → Bool)

theorem filter_mergeSelection (base : List Selection) (t : Selection) :
    (mergeSelection base t).filter (fun s => p s.key?) =
      if p t.key? then mergeSelection (base.filter fun s => p s.key?) t
      else base.filter fun s => p s.key? := by
  induction base with
  | nil =>
    have hnil : mergeSelection [] t = [t] := by cases t <;> rfl
    rw [List.filter_nil, hnil, List.filter_cons, List.filter_nil]
  | cons s rest ih =>
    rw [mergeSelection_cons]
    cases htakes : s.takes t with
    | true =>
      obtain ⟨key, hs, ht⟩ := Selection.takes_iff.mp htakes
      by_cases hp : p (some key) = true
      · simp [Selection.key?_grownBy, hs, ht, hp, mergeSelection_cons, htakes]
      · simp [Selection.key?_grownBy, hs, ht, hp]
    | false =>
      by_cases hs : p s.key? = true
      · by_cases ht : p t.key? = true
        · simp [ih, hs, ht, mergeSelection_cons, htakes]
        · simp [ih, hs, ht]
      · simp [ih, hs]

theorem filter_mergeSelections (base added : List Selection) :
    (mergeSelections base added).filter (fun s => p s.key?) =
      mergeSelections (base.filter fun s => p s.key?) (added.filter fun s => p s.key?) := by
  induction added generalizing base with
  | nil => rw [List.filter_nil, mergeSelections_nil_right, mergeSelections_nil_right]
  | cons t rest ih =>
    rw [mergeSelections, ih, filter_mergeSelection, List.filter_cons]
    split
    · rw [mergeSelections]
    · rfl

end

theorem exists_takes_iff {base : List Selection} {t : Selection} :
    (∃ s ∈ base, s.takes t = true) ↔ ∃ key, t.key? = some key ∧ key ∈ mergeKeys base := by
  simp only [Selection.takes_iff, mergeKeys, List.mem_filterMap]
  constructor
  · intro h
    obtain ⟨s, hmem, key, hs, ht⟩ := h
    exact ⟨key, ht, s, hmem, hs⟩
  · intro h
    obtain ⟨key, ht, s, hmem, hs⟩ := h
    exact ⟨s, hmem, key, hs, ht⟩

theorem mergeSelection_eq_append {base : List Selection} {t : Selection}
    (h : ¬ ∃ s ∈ base, s.takes t = true) : mergeSelection base t = base ++ [t] := by
  induction base with
  | nil => cases t <;> rfl
  | cons s rest ih =>
    simp only [List.mem_cons, exists_eq_or_imp, not_or] at h
    rw [mergeSelection_cons, if_neg h.1, ih h.2]
    rfl

theorem mergeKeys_mergeSelection_of_taken {base : List Selection} {t : Selection}
    (h : ∃ s ∈ base, s.takes t = true) : mergeKeys (mergeSelection base t) = mergeKeys base := by
  induction base with
  | nil => simp at h
  | cons s rest ih =>
    simp only [List.mem_cons, exists_eq_or_imp] at h
    rw [mergeSelection_cons]
    split
    · simp only [mergeKeys, List.filterMap_cons, Selection.key?_grownBy]
    · rename_i htakes
      have hrest := ih (h.resolve_left htakes)
      rw [mergeKeys, mergeKeys] at hrest
      simp only [mergeKeys, List.filterMap_cons, hrest]

theorem mergeKeys_append (set more : List Selection) :
    mergeKeys (set ++ more) = mergeKeys set ++ mergeKeys more :=
  List.filterMap_append

theorem mem_mergeKeys_cons_iff {key : MergeKey} {t : Selection} {rest : List Selection} :
    key ∈ mergeKeys (t :: rest) ↔ t.key? = some key ∨ key ∈ mergeKeys rest := by
  simp [mergeKeys]

theorem mem_mergeKeys_mergeSelection_iff {key : MergeKey} {base : List Selection} {t : Selection} :
    key ∈ mergeKeys (mergeSelection base t) ↔ key ∈ mergeKeys base ∨ t.key? = some key := by
  by_cases htaken : ∃ s ∈ base, s.takes t = true
  · rw [mergeKeys_mergeSelection_of_taken htaken]
    obtain ⟨own, ht, hmem⟩ := exists_takes_iff.mp htaken
    constructor
    · exact .inl
    · intro h
      rcases h with h | h
      · exact h
      · cases ht.symm.trans h
        exact hmem
  · rw [mergeSelection_eq_append htaken, mergeKeys_append, List.mem_append, mem_mergeKeys_cons_iff]
    simp [mergeKeys]

theorem mem_mergeKeys_mergeSelections_iff {key : MergeKey} {base added : List Selection} :
    key ∈ mergeKeys (mergeSelections base added) ↔
      key ∈ mergeKeys base ∨ key ∈ mergeKeys added := by
  induction added generalizing base with
  | nil => simp [mergeSelections_nil_right, mergeKeys]
  | cons t rest ih =>
    rw [mergeSelections, ih, mem_mergeKeys_mergeSelection_iff, mem_mergeKeys_cons_iff, or_assoc]

theorem nodup_mergeKeys_mergeSelections {base : List Selection} (once : (mergeKeys base).Nodup)
    (added : List Selection) : (mergeKeys (mergeSelections base added)).Nodup := by
  induction added generalizing base with
  | nil => rwa [mergeSelections_nil_right]
  | cons t rest ih =>
    rw [mergeSelections]
    apply ih
    by_cases htaken : ∃ s ∈ base, s.takes t = true
    · rwa [mergeKeys_mergeSelection_of_taken htaken]
    · rw [mergeSelection_eq_append htaken, mergeKeys_append]
      rw [exists_takes_iff] at htaken
      cases ht : t.key? with
      | none => simpa [mergeKeys, ht] using once
      | some key =>
        have hnew : key ∉ mergeKeys base := fun hmem => htaken ⟨key, ht, hmem⟩
        have hone : mergeKeys [t] = [key] := by simp [mergeKeys, ht]
        rw [hone, List.nodup_append]
        refine ⟨once, by simp, ?_⟩
        intro own hown other hother hsame
        rw [List.mem_singleton.mp hother] at hsame
        exact hnew (hsame ▸ hown)

theorem mergeSelections_eq_append {base added : List Selection}
    (once : (mergeKeys (base ++ added)).Nodup) : mergeSelections base added = base ++ added := by
  induction added generalizing base with
  | nil => rw [mergeSelections_nil_right, List.append_nil]
  | cons t rest ih =>
    have hnew : ¬ ∃ s ∈ base, s.takes t = true := by
      rw [exists_takes_iff]
      intro h
      obtain ⟨key, ht, hmem⟩ := h
      rw [mergeKeys_append, List.nodup_append] at once
      exact once.2.2 key hmem key (mem_mergeKeys_cons_iff.mpr (.inl ht)) rfl
    have hsplit : base ++ t :: rest = base ++ [t] ++ rest := by simp
    rw [mergeSelections, mergeSelection_eq_append hnew, hsplit]
    exact ih (by rwa [← hsplit])

end QueryShaping
