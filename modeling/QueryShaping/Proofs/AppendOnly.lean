import Mathlib.Data.List.Flatten
import QueryShaping.Proofs.Merging

namespace QueryShaping

mutual

/-- A selection grows to another with selections that are added: a spread or an inline fragment
stays as it is; a field keeps its head, selects nothing if it selected nothing before, and has what
it selects appended to with what the added fields of its name select. -/
inductive Selection.GrowsTo : Selection → List Selection → Selection → Prop where
  | field {head : FieldHead} {children added grown : List Selection}
      (leaf : children = [] → grown = [])
      (inner : AppendsTo children (underName head.name added) grown) :
      Selection.GrowsTo (.field head children) added (.field head grown)
  | spread {fragment : Name} {directives : List Directive} {added : List Selection} :
      Selection.GrowsTo (.spread fragment directives) added (.spread fragment directives)
  | inline {condition : Option Name} {directives : List Directive}
      {children added : List Selection} :
      Selection.GrowsTo (.inline condition directives children) added
        (.inline condition directives children)

/-- A selection set is appended to with selections that are added: each selection has grown in its
place, and the places after them hold some of those added, in order, whose keys are new to the
selection set and which have grown likewise. -/
inductive AppendsTo : List Selection → List Selection → List Selection → Prop where
  | intro {base added merged taken : List Selection}
      (length : merged.length = base.length + taken.length)
      (places : ∀ (i : Nat) (s s' : Selection), base[i]? = some s → merged[i]? = some s' →
        Selection.GrowsTo s added s')
      (order : taken.Sublist added)
      (new : ∀ t ∈ taken, ∀ key, t.key? = some key → key ∉ mergeKeys base)
      (after : ∀ (i : Nat) (t t' : Selection), taken[i]? = some t →
        merged[base.length + i]? = some t' → Selection.GrowsTo t added t') :
      AppendsTo base added merged

end

theorem underName_sublist {set more : List Selection} (name : Name) (h : set.Sublist more) :
    (underName name set).Sublist (underName name more) :=
  (h.filter _).flatMap _

theorem Selection.GrowsTo.mono {s s' : Selection} {added more : List Selection}
    (h : s.GrowsTo added s') (sublist : added.Sublist more) : s.GrowsTo more s' := by
  -- On a selection and the selection sets below it at once; below a field what is added grows too.
  induction h using Selection.GrowsTo.rec
    (motive_2 := fun base added merged _ =>
      ∀ more, added.Sublist more → AppendsTo base more merged) generalizing more with
  | field leaf inner ih => exact .field leaf (ih _ (underName_sublist _ sublist))
  | spread => exact .spread
  | inline => exact .inline
  | intro length places order new after ihplaces ihafter more sublist =>
    refine .intro length ?_ (order.trans sublist) new ?_
    · intro i s s' hs hs'
      exact ihplaces i s s' hs hs' sublist
    · intro i t t' ht ht'
      exact ihafter i t t' ht ht' sublist

namespace AppendsTo

variable {base added merged : List Selection} {s s' : Selection}

theorem nil (added : List Selection) : AppendsTo [] added [] :=
  .intro (by rfl) (by simp) (List.nil_sublist added) (by simp) (by simp)

theorem cons (grown : s.GrowsTo added s')
    (rest : AppendsTo base (added.filter fun t => !s.takes t) merged) :
    AppendsTo (s :: base) added (s' :: merged) := by
  have hleft : (added.filter fun t => !s.takes t).Sublist added := List.filter_sublist
  cases rest with
  | @intro _ _ _ taken length places order new after =>
    refine .intro ?_ ?_ (order.trans hleft) ?_ ?_
    · simp only [List.length_cons, length]
      omega
    · intro i t t' ht ht'
      cases i with
      | zero =>
        simp only [List.getElem?_cons_zero, Option.some.injEq] at ht ht'
        subst ht ht'
        exact grown
      | succ i => exact (places i t t' (by simpa using ht) (by simpa using ht')).mono hleft
    · intro t ht key hkey hmem
      rcases mem_mergeKeys_cons_iff.mp hmem with hs | hbase
      · have hleft := (List.mem_filter.mp (order.subset ht)).2
        simp [Selection.takes_iff.mpr ⟨key, hs, hkey⟩] at hleft
      · exact new t ht key hkey hbase
    · intro i t t' ht ht'
      have hplace : (s :: base).length + i = base.length + i + 1 := by
        simp only [List.length_cons]
        omega
      rw [hplace, List.getElem?_cons_succ] at ht'
      exact (after i t t' ht ht').mono hleft

theorem first (h : AppendsTo [s] added merged) : AppendsTo [] (s :: added) merged := by
  have hmore : added.Sublist (s :: added) := List.sublist_cons_self s added
  cases h with
  | @intro _ _ _ taken length places order new after =>
    refine .intro ?_ (by simp) (order.cons_cons s) (by simp [mergeKeys]) ?_
    · simp only [length, List.length_cons, List.length_nil]
      omega
    · intro i t t' ht ht'
      rw [List.length_nil, Nat.zero_add] at ht'
      cases i with
      -- The one selection that was there is the first of those added.
      | zero => exact (places 0 t t' ht ht').mono hmore
      | succ i =>
        refine (after i t t' (by simpa using ht) ?_).mono hmore
        rwa [List.length_singleton, Nat.add_comm]

end AppendsTo

theorem Selection.growsTo_grownBy (s : Selection) {added : List Selection}
    (below : ∀ head children, s = .field head children →
      AppendsTo children (underName head.name added)
        (mergeSelections children (underName head.name added))) :
    s.GrowsTo added (s.grownBy added) := by
  cases s with
  | field head children =>
    rw [grownBy]
    split
    · rename_i hleaf
      rw [List.isEmpty_iff] at hleaf
      subst hleaf
      exact .field (fun _ => rfl) (.nil _)
    · rename_i hfilled
      rw [List.isEmpty_iff] at hfilled
      exact .field (fun hleaf => absurd hleaf hfilled) (below head children rfl)
  | spread fragment directives => exact .spread
  | inline condition directives children => exact .inline

/-- A merge appends to its base and changes nothing else, at any depth. -/
theorem appendsTo_mergeSelections (base added : List Selection) :
    AppendsTo base added (mergeSelections base added) := by
  induction base, added using mergeSelections_induction with
  | nil => exact .nil []
  | first s added ih =>
    rw [mergeSelections_nil_cons]
    exact ih.first
  | cons s base added below ih =>
    rw [mergeSelections_cons]
    exact .cons (s.growsTo_grownBy below) ih

end QueryShaping
