import QueryShaping.Proofs.FragmentGroups
import QueryShaping.Proofs.Recording
import QueryShaping.Sweep

namespace QueryShaping

/-- A name is reached from the names that `start` holds of, each step by a definition of a name
reached before. -/
inductive Reached (leads : Fragment → Name → Prop) (defs : List Fragment) (start : Name → Prop) :
    Name → Prop where
  | start {name : Name} (begun : start name) : Reached leads defs start name
  | step {f : Fragment} {name : Name} (member : f ∈ defs)
      (reached : Reached leads defs start f.name) (next : leads f name) :
      Reached leads defs start name

section

variable {leads : Fragment → Name → Prop} {defs : List Fragment} {start : Name → Prop}

theorem Reached.mono {defs' : List Fragment} {start' : Name → Prop} {name : Name}
    (h : Reached leads defs start name) (hdefs : ∀ f ∈ defs, f ∈ defs')
    (hstart : ∀ n, start n → Reached leads defs' start' n) : Reached leads defs' start' name := by
  induction h with
  | start begun => exact hstart _ begun
  | step member _ next ih => exact .step (hdefs _ member) ih next

/-- Only the definitions of reached names count, whatever becomes of the others. -/
theorem Reached.of_kept {defs' : List Fragment} {name : Name} (h : Reached leads defs start name)
    (kept : ∀ f ∈ defs, Reached leads defs start f.name → f ∈ defs') :
    Reached leads defs' start name := by
  induction h with
  | start begun => exact .start begun
  | step member reached next ih => exact .step (kept _ member reached) ih next

theorem Reached.of_closed {P : Name → Prop} {name : Name} (h : Reached leads defs start name)
    (hstart : ∀ n, start n → P n) (hstep : ∀ f ∈ defs, P f.name → ∀ n, leads f n → P n) :
    P name := by
  induction h with
  | start begun => exact hstart _ begun
  | step member _ next ih => exact hstep _ member ih _ next

end

theorem mem_foldl_iff {α β : Type} {step : List α → β → List α} {P : β → Prop} {a : α}
    (h : ∀ l b, a ∈ step l b ↔ P b ∨ a ∈ l) (bs : List β) (l : List α) :
    a ∈ bs.foldl step l ↔ (∃ b ∈ bs, P b) ∨ a ∈ l := by
  induction bs generalizing l with
  | nil => simp
  | cons b rest ih => simp [ih, h, or_assoc, or_left_comm]

namespace FragmentGroups

variable {groups : FragmentGroups} {reached pending : List Name} {name : Name}

theorem mem_spreadsIn_iff {m : Name} :
    m ∈ groups.spreadsIn name ↔ ∃ f ∈ groups.get name, f.LeadsTo m := by
  have hstep : ∀ names f,
      m ∈ Walker.spreadRecorder.walkFragment names f ↔ f.LeadsTo m ∨ m ∈ names :=
    fun _ _ => Walker.mem_spreadRecorder_walkFragment_iff
  rw [spreadsIn, mem_foldl_iff hstep, or_iff_left List.not_mem_nil]

theorem mem_reach_of_mem_reached (h : name ∈ reached) : name ∈ groups.reach reached pending := by
  fun_induction reach groups reached pending with
  | case1 reached => exact h
  | case2 reached next pending _ ih => exact ih h
  | case3 reached next pending _ ih => exact ih (List.mem_cons_of_mem _ h)

theorem mem_reach_of_mem_pending (h : name ∈ pending) : name ∈ groups.reach reached pending := by
  fun_induction reach groups reached pending with
  | case1 reached => exact absurd h List.not_mem_nil
  | case2 reached next pending hmet ih =>
    rcases List.mem_cons.mp h with rfl | hm
    · exact mem_reach_of_mem_reached (by simpa using hmet)
    · exact ih hm
  | case3 reached next pending _ ih =>
    rcases List.mem_cons.mp h with rfl | hm
    · exact mem_reach_of_mem_reached List.mem_cons_self
    · exact ih (List.mem_append_right _ hm)

/-- What the definitions of reached names lead to is reached, or is pending. -/
def Closed (groups : FragmentGroups) (reached pending : List Name) : Prop :=
  ∀ n ∈ reached, ∀ m ∈ groups.spreadsIn n, m ∈ reached ∨ m ∈ pending

theorem closed_reach (h : groups.Closed reached pending) :
    groups.Closed (groups.reach reached pending) [] := by
  fun_induction reach groups reached pending with
  | case1 reached => exact h
  | case2 reached next pending hmet ih =>
    apply ih
    intro n hn m hm
    rcases h n hn m hm with hr | hp
    · exact .inl hr
    · rcases List.mem_cons.mp hp with rfl | hp
      · exact .inl (by simpa using hmet)
      · exact .inr hp
  | case3 reached next pending _ ih =>
    apply ih
    intro n hn m hm
    by_cases hnew : m ∈ next :: reached
    · exact .inl hnew
    · right
      rw [List.mem_append, List.mem_filter]
      rcases List.mem_cons.mp hn with rfl | hn
      · exact .inl ⟨hm, by simpa using hnew⟩
      · rcases h n hn m hm with hr | hp
        · exact absurd (List.mem_cons_of_mem _ hr) hnew
        · rcases List.mem_cons.mp hp with rfl | hp
          · exact absurd List.mem_cons_self hnew
          · exact .inr hp

theorem reach_sound {P : Name → Prop} (hstep : ∀ n m, P n → m ∈ groups.spreadsIn n → P m)
    (hreached : ∀ n ∈ reached, P n) (hpending : ∀ n ∈ pending, P n) :
    ∀ n ∈ groups.reach reached pending, P n := by
  fun_induction reach groups reached pending with
  | case1 reached => exact hreached
  | case2 reached next pending _ ih =>
    exact ih hreached fun n hn => hpending n (List.mem_cons_of_mem _ hn)
  | case3 reached next pending _ ih =>
    have hnext : P next := hpending next List.mem_cons_self
    apply ih
    · exact List.forall_mem_cons.mpr ⟨hnext, hreached⟩
    · intro n hn
      rcases List.mem_append.mp hn with hn | hn
      · exact hstep next n hnext (List.mem_filter.mp hn).1
      · exact hpending n (List.mem_cons_of_mem _ hn)

theorem nodup_reach (h : reached.Nodup) : (groups.reach reached pending).Nodup := by
  fun_induction reach groups reached pending with
  | case1 reached => exact h
  | case2 reached next pending _ ih => exact ih h
  | case3 reached next pending hnew ih =>
    exact ih (List.nodup_cons.mpr ⟨by simpa using hnew, h⟩)

theorem mem_reach_iff {defs : List Fragment} :
    name ∈ (ofList defs).reach [] pending ↔
      Reached Fragment.LeadsTo defs (· ∈ pending) name := by
  constructor
  · apply reach_sound (P := Reached Fragment.LeadsTo defs (· ∈ pending))
    · intro n m hn hm
      obtain ⟨f, hf, hleads⟩ := mem_spreadsIn_iff.mp hm
      obtain ⟨hmem, rfl⟩ := mem_get_ofList_iff.mp hf
      exact .step hmem hn hleads
    · intro n hn
      exact absurd hn List.not_mem_nil
    · intro n hn
      exact .start hn
  · intro h
    apply h.of_closed
    · intro n hn
      exact mem_reach_of_mem_pending hn
    · intro f hf hreached n hleads
      have hclosed : (ofList defs).Closed ((ofList defs).reach [] pending) [] :=
        closed_reach fun _ hn => absurd hn List.not_mem_nil
      have hspread : n ∈ (ofList defs).spreadsIn f.name :=
        mem_spreadsIn_iff.mpr ⟨f, mem_get_ofList_iff.mpr ⟨hf, rfl⟩, hleads⟩
      exact (hclosed f.name hreached n hspread).resolve_right List.not_mem_nil

end FragmentGroups

end QueryShaping
