import Mathlib.Data.List.Nodup
import QueryShaping.Data.Decoding

namespace QueryShaping

/-- A field of a record taken apart: its key, how data for it is read, and the place in the record
that what is read goes to. -/
structure FieldRule (ρ : Type) where
  key : String
  Value : Type
  read : Data → Except DecodeError Value
  get : ρ → Value
  set : Value → ρ → ρ
  get_set : ∀ v r, get (set v r) = v

namespace FieldRule

variable {ρ : Type}

def toField (rule : FieldRule ρ) : RecordField ρ where
  key := rule.key
  update d r := (rule.read d).map fun v => rule.set v r

/-- What entries make of a record at a field: it holds what they give there, or what it held before
if they leave the field out. -/
structure Given (rule : FieldRule ρ) (entries : List (String × Data)) (before after : ρ) :
    Prop where
  said : ∀ d, (rule.key, d) ∈ entries → rule.read d = .ok (rule.get after)
  left : rule.key ∉ entries.map Prod.fst → rule.get after = rule.get before

variable {rule : FieldRule ρ} {entries entries' rest : List (String × Data)} {key : String}
  {d : Data} {before after : ρ}

theorem given_of_left_out (h : rule.key ∉ entries.map Prod.fst) :
    rule.Given entries before after ↔ rule.get after = rule.get before := by
  constructor
  · intro hg
    exact hg.left h
  · intro he
    refine ⟨?_, fun _ => he⟩
    intro d hd
    exact absurd (List.mem_map_of_mem hd) h

theorem given_cons_self (h : rule.key ∉ rest.map Prod.fst) :
    rule.Given ((rule.key, d) :: rest) before after ↔ rule.read d = .ok (rule.get after) := by
  constructor
  · intro hg
    exact hg.said d List.mem_cons_self
  · intro hd
    refine ⟨?_, fun hout => absurd (by simp) hout⟩
    intro d' hd'
    rcases List.mem_cons.mp hd' with he | hrest
    · cases he
      exact hd
    · exact absurd (List.mem_map_of_mem hrest) h

theorem given_cons_of_ne (h : rule.key ≠ key) :
    rule.Given ((key, d) :: rest) before after ↔ rule.Given rest before after := by
  constructor
  · intro hg
    exact ⟨fun d' hd' => hg.said d' (List.mem_cons_of_mem _ hd'),
      fun hout => hg.left (by simpa [h] using hout)⟩
  · intro hg
    refine ⟨?_, fun hout => hg.left fun hm => hout (List.mem_cons_of_mem _ hm)⟩
    intro d' hd'
    rcases List.mem_cons.mp hd' with he | hrest
    · exact absurd (congrArg Prod.fst he) h
    · exact hg.said d' hrest

theorem given_congr {start start' : ρ} (h : rule.get start = rule.get start') :
    rule.Given entries start after ↔ rule.Given entries start' after := by
  constructor
  · intro hg
    exact ⟨hg.said, fun hout => (hg.left hout).trans h⟩
  · intro hg
    exact ⟨hg.said, fun hout => (hg.left hout).trans h.symm⟩

theorem Given.of_perm (h : rule.Given entries before after) (perm : entries'.Perm entries) :
    rule.Given entries' before after :=
  ⟨fun d hd => h.said d (perm.mem_iff.mp hd),
    fun hout => h.left fun hm => hout ((perm.map Prod.fst).mem_iff.mpr hm)⟩

end FieldRule

/-- Keys that a shape does not refuse: all of them belong to fields of it, unless it lets others
pass. -/
def RecordShape.Admits {ρ : Type} (shape : RecordShape ρ) (keys : List String) : Prop :=
  shape.refusesOthers = true → ∀ key ∈ keys, key ∈ shape.fields.map RecordField.key

theorem RecordShape.admits_cons_iff {ρ : Type} {shape : RecordShape ρ} {key : String}
    {keys : List String} : shape.Admits (key :: keys) ↔
      (shape.refusesOthers = true → key ∈ shape.fields.map RecordField.key) ∧
      shape.Admits keys := by
  simp only [RecordShape.Admits, List.forall_mem_cons, forall_and]

/-- A shape reads by rules: its fields are theirs, no two of them have a key or a place in common,
and their places make up the record. -/
structure RecordShape.ReadsBy {ρ : Type} (shape : RecordShape ρ) (rules : List (FieldRule ρ)) :
    Prop where
  fields : shape.fields = rules.map FieldRule.toField
  distinct : (rules.map FieldRule.key).Nodup
  apart : ∀ a ∈ rules, ∀ b ∈ rules, a.key ≠ b.key → ∀ v r, a.get (b.set v r) = a.get r
  whole : ∀ r r', (∀ rule ∈ rules, rule.get r = rule.get r') → r = r'

namespace RecordShape.ReadsBy

variable {ρ : Type} {shape : RecordShape ρ} {rules : List (FieldRule ρ)} {rule : FieldRule ρ}
  {met : List String} {entries entries' rest : List (String × Data)} {key : String} {d : Data}
  {r r' : ρ}

theorem keys_eq (reads : shape.ReadsBy rules) :
    shape.fields.map RecordField.key = rules.map FieldRule.key := by
  rw [reads.fields, List.map_map]
  rfl

theorem eq_of_key_eq (reads : shape.ReadsBy rules) {a b : FieldRule ρ} (ha : a ∈ rules)
    (hb : b ∈ rules) (h : a.key = b.key) : a = b :=
  List.inj_on_of_nodup_map reads.distinct ha hb h

theorem field?_eq (reads : shape.ReadsBy rules) (key : String) :
    shape.field? key = (rules.find? (·.key == key)).map FieldRule.toField := by
  unfold RecordShape.field?
  rw [reads.fields, List.find?_map]
  rfl

theorem field?_of_mem (reads : shape.ReadsBy rules) (member : rule ∈ rules) :
    shape.field? rule.key = some rule.toField := by
  rw [reads.field?_eq]
  cases hfind : rules.find? (·.key == rule.key) with
  | none => exact absurd (List.find?_eq_none.mp hfind rule member) (by simp)
  | some other =>
    have hother : other ∈ rules := List.mem_of_find?_eq_some hfind
    have hkey : other.key = rule.key := by simpa using List.find?_some hfind
    rw [reads.eq_of_key_eq hother member hkey, Option.map_some]

theorem field?_of_not_mem (reads : shape.ReadsBy rules) (h : key ∉ rules.map FieldRule.key) :
    shape.field? key = none := by
  rw [reads.field?_eq, Option.map_eq_none_iff, List.find?_eq_none]
  intro rule hrule hkey
  exact h (List.mem_map.mpr ⟨rule, hrule, by simpa using hkey⟩)

theorem readEntries_of_mem (reads : shape.ReadsBy rules) (member : rule ∈ rules)
    (fresh : rule.key ∉ met) :
    shape.readEntries met ((rule.key, d) :: rest) r =
      (rule.read d).bind fun v => shape.readEntries (rule.key :: met) rest (rule.set v r) := by
  have hfresh : met.contains rule.key = false := by simpa using fresh
  simp only [readEntries, reads.field?_of_mem member, hfresh, FieldRule.toField]
  cases rule.read d <;> rfl

theorem readEntries_of_not_mem (reads : shape.ReadsBy rules)
    (h : key ∉ rules.map FieldRule.key) :
    shape.readEntries met ((key, d) :: rest) r =
      if shape.refusesOthers then .error (.unknownField key (shape.fields.map (·.key)))
      else shape.readEntries met rest r := by
  simp only [readEntries, reads.field?_of_not_mem h]

theorem admits_cons_of_mem (reads : shape.ReadsBy rules) {keys : List String}
    (h : key ∈ rules.map FieldRule.key) : shape.Admits (key :: keys) ↔ shape.Admits keys := by
  rw [RecordShape.admits_cons_iff, reads.keys_eq]
  exact and_iff_right fun _ => h

theorem forall_given_cons_iff (reads : shape.ReadsBy rules) (member : rule ∈ rules)
    (hnew : rule.key ∉ rest.map Prod.fst) {v : rule.Value} (hread : rule.read d = .ok v) :
    (∀ other ∈ rules, other.Given ((rule.key, d) :: rest) r r') ↔
      ∀ other ∈ rules, other.Given rest (rule.set v r) r' := by
  apply forall₂_congr
  intro other hother
  by_cases hkey : other.key = rule.key
  · obtain rfl := reads.eq_of_key_eq hother member hkey
    rw [FieldRule.given_cons_self hnew, FieldRule.given_of_left_out hnew, other.get_set, hread]
    simp [eq_comm]
  · rw [FieldRule.given_cons_of_ne hkey]
    exact FieldRule.given_congr (reads.apart other hother rule member hkey v r).symm

theorem forall_given_cons_of_not_mem (h : key ∉ rules.map FieldRule.key) :
    (∀ rule ∈ rules, rule.Given ((key, d) :: rest) r r') ↔
      ∀ rule ∈ rules, rule.Given rest r r' := by
  apply forall₂_congr
  intro rule hrule
  exact FieldRule.given_cons_of_ne fun he => h (he ▸ List.mem_map_of_mem hrule)

/-- Entries with distinct keys are read as a record exactly if their keys are keys of fields, where
others are refused, and the record is what they make of the one before at each field. -/
theorem readEntries_eq_ok_iff (reads : shape.ReadsBy rules)
    (distinct : (entries.map Prod.fst).Nodup) (fresh : ∀ key ∈ entries.map Prod.fst, key ∉ met) :
    shape.readEntries met entries r = .ok r' ↔
      shape.Admits (entries.map Prod.fst) ∧ ∀ rule ∈ rules, rule.Given entries r r' := by
  -- each entry changes the record before the next; that the keys are distinct keeps the rest from
  -- the field just read, and so from its place
  induction entries generalizing met r with
  | nil =>
    have hnone : ∀ rule : FieldRule ρ, rule.Given [] r r' ↔ rule.get r' = rule.get r :=
      fun rule => FieldRule.given_of_left_out List.not_mem_nil
    simp only [readEntries, Except.ok.injEq, hnone]
    constructor
    · intro he
      subst he
      exact ⟨fun _ key hkey => absurd hkey List.not_mem_nil, fun _ _ => rfl⟩
    · intro h
      exact reads.whole r r' fun rule hrule => (h.2 rule hrule).symm
  | cons entry rest ih =>
    obtain ⟨key, d⟩ := entry
    obtain ⟨hnew, hdistinct⟩ := List.nodup_cons.mp distinct
    by_cases hkey : key ∈ rules.map FieldRule.key
    · obtain ⟨rule, member, rfl⟩ := List.mem_map.mp hkey
      rw [reads.readEntries_of_mem member (fresh _ List.mem_cons_self)]
      cases hread : rule.read d with
      | error e =>
        have hfails : ¬ rule.Given ((rule.key, d) :: rest) r r' := fun hg => by
          simpa [hread] using hg.said d List.mem_cons_self
        simp only [Except.bind, reduceCtorEq, false_iff]
        exact fun h => hfails (h.2 rule member)
      | ok v =>
        have hfresh : ∀ key ∈ rest.map Prod.fst, key ∉ rule.key :: met := by
          intro key hm hmet
          rcases List.mem_cons.mp hmet with rfl | hmet
          · exact hnew hm
          · exact fresh key (List.mem_cons_of_mem _ hm) hmet
        simp only [Except.bind]
        rw [ih hdistinct hfresh, reads.forall_given_cons_iff member hnew hread, List.map_cons,
          reads.admits_cons_of_mem hkey]
    · have hfresh : ∀ key ∈ rest.map Prod.fst, key ∉ met :=
        fun key hm => fresh key (List.mem_cons_of_mem _ hm)
      rw [reads.readEntries_of_not_mem hkey, forall_given_cons_of_not_mem hkey, List.map_cons,
        RecordShape.admits_cons_iff, reads.keys_eq]
      cases hrefuses : shape.refusesOthers with
      | true =>
        simp only [if_true, reduceCtorEq, false_iff]
        exact fun h => hkey (h.1.1 trivial)
      | false =>
        simp only [Bool.false_eq_true, if_false, false_implies, true_and]
        exact ih hdistinct hfresh

theorem read_mapping_eq_ok_iff (reads : shape.ReadsBy rules)
    (distinct : (entries.map Prod.fst).Nodup) :
    shape.read (.mapping entries) = .ok r ↔
      shape.Admits (entries.map Prod.fst) ∧
      ∀ rule ∈ rules, rule.Given entries shape.initial r :=
  reads.readEntries_eq_ok_iff distinct fun _ _ => List.not_mem_nil

theorem read_mapping_of_all_said (reads : shape.ReadsBy rules)
    (keys : entries.map Prod.fst = rules.map FieldRule.key)
    (said : ∀ rule ∈ rules, ∀ d, (rule.key, d) ∈ entries → rule.read d = .ok (rule.get r)) :
    shape.read (.mapping entries) = .ok r := by
  apply (reads.read_mapping_eq_ok_iff (keys ▸ reads.distinct)).mpr
  refine ⟨?_, ?_⟩
  · intro _ key hkey
    rw [reads.keys_eq, ← keys]
    exact hkey
  · intro rule hrule
    refine ⟨said rule hrule, fun hout => ?_⟩
    rw [keys] at hout
    exact absurd (List.mem_map_of_mem hrule) hout

theorem read_mapping_of_perm (reads : shape.ReadsBy rules)
    (distinct : (entries.map Prod.fst).Nodup) (perm : entries'.Perm entries)
    (h : shape.read (.mapping entries) = .ok r) : shape.read (.mapping entries') = .ok r := by
  have hkeys : (entries'.map Prod.fst).Perm (entries.map Prod.fst) := perm.map Prod.fst
  obtain ⟨hknown, hgiven⟩ := (reads.read_mapping_eq_ok_iff distinct).mp h
  apply (reads.read_mapping_eq_ok_iff (hkeys.nodup_iff.mpr distinct)).mpr
  exact ⟨fun hrefuses key hm => hknown hrefuses key (hkeys.mem_iff.mp hm),
    fun rule hrule => (hgiven rule hrule).of_perm perm⟩

theorem get_of_left_out (reads : shape.ReadsBy rules) (distinct : (entries.map Prod.fst).Nodup)
    (h : shape.read (.mapping entries) = .ok r) (member : rule ∈ rules)
    (hout : rule.key ∉ entries.map Prod.fst) : rule.get r = rule.get shape.initial :=
  (((reads.read_mapping_eq_ok_iff distinct).mp h).2 rule member).left hout

theorem readItems_eq_readEntries (reads : shape.ReadsBy rules) (count : Nat) {items : List Data}
    {fields : List (FieldRule ρ)} (hfields : ∀ rule ∈ fields, rule ∈ rules)
    (distinct : (fields.map FieldRule.key).Nodup) (fresh : ∀ rule ∈ fields, rule.key ∉ met)
    (enough : items.length ≤ fields.length) :
    readItems count (fields.map FieldRule.toField) items r =
      shape.readEntries met ((fields.map FieldRule.key).zip items) r := by
  induction fields generalizing items met r with
  | nil =>
    have hnone : items = [] := List.eq_nil_of_length_eq_zero (by simpa using enough)
    subst hnone
    rfl
  | cons rule fields ih =>
    cases items with
    | nil => rfl
    | cons d items =>
      obtain ⟨hnew, hdistinct⟩ := List.nodup_cons.mp distinct
      have hfresh : ∀ other ∈ fields, other.key ∉ rule.key :: met := by
        intro other hother hmet
        rcases List.mem_cons.mp hmet with he | hmet
        · exact hnew (he ▸ List.mem_map_of_mem hother)
        · exact fresh other (List.mem_cons_of_mem _ hother) hmet
      rw [List.map_cons, List.map_cons, List.zip_cons_cons,
        reads.readEntries_of_mem (hfields rule List.mem_cons_self)
          (fresh rule List.mem_cons_self)]
      simp only [readItems, FieldRule.toField]
      cases rule.read d with
      | error e => rfl
      | ok v =>
        exact ih (fun other hother => hfields other (List.mem_cons_of_mem _ hother)) hdistinct
          hfresh (by simpa using enough)

/-- A sequence is read as the mapping that gives its items to the fields in order. -/
theorem read_sequence_eq (reads : shape.ReadsBy rules) {items : List Data}
    (enough : items.length ≤ rules.length) :
    shape.read (.sequence items) =
      shape.read (.mapping ((rules.map FieldRule.key).zip items)) := by
  unfold RecordShape.read
  rw [reads.fields]
  exact reads.readItems_eq_readEntries items.length (fun _ hrule => hrule) reads.distinct
    (fun _ _ => List.not_mem_nil) enough

end RecordShape.ReadsBy

/-- The forms of a kind of record agree. Its fields are given by their keys, in order, each with
what holds of a record that leaves it out. -/
structure FormsAgree {α : Type} (encode : α → Data) (decode : Data → Except DecodeError α)
    (fields : List (String × (α → Prop))) : Prop where
  comes_back : ∀ v, decode (encode v) = .ok v
  any_order : ∀ entries entries' v, (entries.map Prod.fst).Nodup → entries'.Perm entries →
    decode (.mapping entries) = .ok v → decode (.mapping entries') = .ok v
  left_out : ∀ entries v, (entries.map Prod.fst).Nodup → decode (.mapping entries) = .ok v →
    ∀ field ∈ fields, field.1 ∉ entries.map Prod.fst → field.2 v
  in_sequence : ∀ items, items ≠ [] → items.length ≤ fields.length →
    decode (.sequence items) = decode (.mapping ((fields.map Prod.fst).zip items))

theorem RecordShape.ReadsBy.formsAgree {ρ α : Type} {shape : RecordShape ρ}
    {rules : List (FieldRule ρ)} {encode : α → Data} {decode : Data → Except DecodeError α}
    {fields : List (String × (α → Prop))} (reads : shape.ReadsBy rules) (standsFor : α → ρ)
    (returns : ∀ v, decode (encode v) = .ok v)
    (mapping : ∀ entries v, decode (.mapping entries) = .ok v ↔
      shape.read (.mapping entries) = .ok (standsFor v))
    (sequence : ∀ items, items ≠ [] → items.length ≤ rules.length →
      decode (.sequence items) = decode (.mapping ((rules.map FieldRule.key).zip items)))
    (keys : rules.map FieldRule.key = fields.map Prod.fst)
    (defaults : ∀ v, ∀ field ∈ fields, ∃ rule ∈ rules, rule.key = field.1 ∧
      (rule.get (standsFor v) = rule.get shape.initial → field.2 v)) :
    FormsAgree encode decode fields where
  comes_back := returns
  any_order := by
    intro entries entries' v distinct perm h
    exact (mapping entries' v).mpr
      (reads.read_mapping_of_perm distinct perm ((mapping entries v).mp h))
  left_out := by
    intro entries v distinct h field hfield hout
    obtain ⟨rule, member, hkey, hdefault⟩ := defaults v field hfield
    rw [← hkey] at hout
    exact hdefault (reads.get_of_left_out distinct ((mapping entries v).mp h) member hout)
  in_sequence := by
    intro items hsome enough
    have hlength : rules.length = fields.length := by simpa using congrArg List.length keys
    rw [← keys]
    exact sequence items hsome (by omega)

end QueryShaping
