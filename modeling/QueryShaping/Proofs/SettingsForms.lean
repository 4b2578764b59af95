import QueryShaping.Proofs.RecordForms
import QueryShaping.Settings

namespace QueryShaping

namespace Decode

theorem count_integer (n : Nat) : count (.integer n) = .ok n := by
  simp [count]

theorem optional_encodeOptional {α : Type} {read : Data → Except DecodeError α} {encode : α → Data}
    (present : ∀ a, isAbsent (encode a) = false) (returns : ∀ a, read (encode a) = .ok a)
    (v : Option α) : optional read (encodeOptional encode v) = .ok v := by
  cases v with
  | none => rfl
  | some a => simp [optional, encodeOptional, present, returns, Functor.map, Except.map]

end Decode

namespace GraftSettings

def rules : List (FieldRule GraftSettings) := [
  ⟨"source_path", String, Decode.text, sourcePath, fun v s => { s with sourcePath := v },
    fun _ _ => rfl⟩,
  ⟨"recursion_limit", Option Nat, Decode.optional Decode.count, depthLimit,
    fun v s => { s with depthLimit := v }, fun _ _ => rfl⟩,
  ⟨"token_limit", Option Nat, Decode.optional Decode.count, tokenLimit,
    fun v s => { s with tokenLimit := v }, fun _ _ => rfl⟩]

theorem readsBy : shape.ReadsBy rules where
  fields := rfl
  distinct := by decide
  apart := by simp [rules]
  whole := by
    intro r r' h
    cases r
    cases r'
    simpa [rules] using h

theorem decode_encode (s : GraftSettings) : decode s.encode = .ok s := by
  have hlimit : ∀ v, Decode.optional Decode.count (encodeOptional (fun n => .integer (n : Nat)) v) =
      .ok v := Decode.optional_encodeOptional (fun _ => rfl) Decode.count_integer
  apply readsBy.read_mapping_of_all_said rfl
  simp [rules, Decode.text, hlimit]

end GraftSettings

namespace ListSettings

def rules : List (FieldRule ListSettings) := [
  ⟨"list_field", Option String, Decode.optional Decode.text, listField,
    fun v s => { s with listField := v }, fun _ _ => rfl⟩,
  ⟨"items_field", String, Decode.text, itemsField, fun v s => { s with itemsField := v },
    fun _ _ => rfl⟩,
  ⟨"identity_field", String, Decode.text, identityField,
    fun v s => { s with identityField := v }, fun _ _ => rfl⟩,
  ⟨"custom_fields_field", String, Decode.text, customField,
    fun v s => { s with customField := v }, fun _ _ => rfl⟩]

theorem readsBy : shape.ReadsBy rules where
  fields := rfl
  distinct := by decide
  apart := by simp [rules]
  whole := by
    intro r r' h
    cases r
    cases r'
    simpa [rules] using h

theorem decode_encode (s : ListSettings) : decode s.encode = .ok s := by
  have hname : ∀ v, Decode.optional Decode.text (encodeOptional .string v) = .ok v :=
    Decode.optional_encodeOptional (fun _ => rfl) (fun _ => rfl)
  apply readsBy.read_mapping_of_all_said rfl
  simp [rules, Decode.text, hname]

end ListSettings

namespace Column

def Draft.rules : List (FieldRule Draft) := [
  ⟨"name", Option String, fun d => (Decode.text d).map some, name,
    fun v c => { c with name := v }, fun _ _ => rfl⟩,
  ⟨"isCustomField", Bool, Decode.truth, isCustom, fun v c => { c with isCustom := v },
    fun _ _ => rfl⟩]

theorem readsBy : shape.ReadsBy Draft.rules where
  fields := by
    have hname : ∀ (d : Data) (c : Draft),
        ((Decode.text d).map fun v => { c with name := some v }) =
          ((Decode.text d).map some).map fun v => { c with name := v } := by
      intro d c
      cases Decode.text d <;> rfl
    simp only [shape, Draft.rules, List.map_cons, List.map_nil, FieldRule.toField, hname]
  distinct := by decide
  apart := by simp [Draft.rules]
  whole := by
    intro r r' h
    cases r
    cases r'
    simpa [Draft.rules] using h

def toDraft (c : Column) : Draft :=
  ⟨some c.name, c.isCustom⟩

theorem finish_eq_ok_iff {draft : Draft} {c : Column} : draft.finish = .ok c ↔ draft = c.toDraft := by
  obtain ⟨name, isCustom⟩ := draft
  obtain ⟨name', isCustom'⟩ := c
  cases name <;> simp [Draft.finish, toDraft]

theorem decode_mapping_eq_ok_iff {entries : List (String × Data)} {c : Column} :
    decode (.mapping entries) = .ok c ↔ shape.read (.mapping entries) = .ok c.toDraft := by
  have hdecode : decode (.mapping entries) = (shape.read (.mapping entries)).bind Draft.finish := rfl
  rw [hdecode]
  cases shape.read (.mapping entries) with
  | error e => simp [Except.bind]
  | ok draft => simp [Except.bind, finish_eq_ok_iff]

theorem decode_encode (c : Column) : decode c.encode = .ok c := by
  apply decode_mapping_eq_ok_iff.mpr
  apply readsBy.read_mapping_of_all_said rfl
  simp [Draft.rules, Decode.text, Decode.truth, toDraft, Except.map]

theorem decode_sequence_eq {items : List Data} (hsome : items ≠ [])
    (enough : items.length ≤ Draft.rules.length) :
    decode (.sequence items) = decode (.mapping ((Draft.rules.map FieldRule.key).zip items)) := by
  obtain ⟨d, rest, rfl⟩ := List.exists_cons_of_ne_nil hsome
  have hdecode : decode (.sequence (d :: rest)) =
      (shape.read (.sequence (d :: rest))).bind Draft.finish := rfl
  rw [hdecode, readsBy.read_sequence_eq enough]
  rfl

end Column

/-- Settings for grafts, settings for lists and columns are the same in all their forms: encoded and
decoded again, given by entries in any order with defaults for those left out, and given by
position. The name of a column has no default. -/
theorem settings_forms_agree :
    FormsAgree GraftSettings.encode GraftSettings.decode
      [("source_path", fun s => s.sourcePath = "extension.graphql"),
        ("recursion_limit", fun s => s.depthLimit = none),
        ("token_limit", fun s => s.tokenLimit = none)] ∧
    FormsAgree ListSettings.encode ListSettings.decode
      [("list_field", fun s => s.listField = none),
        ("items_field", fun s => s.itemsField = "items"),
        ("identity_field", fun s => s.identityField = "id"),
        ("custom_fields_field", fun s => s.customField = "customFields")] ∧
    FormsAgree Column.encode Column.decode
      [("name", fun _ => False), ("isCustomField", fun c => c.isCustom = false)] := by
  refine ⟨?_, ?_, ?_⟩
  · exact GraftSettings.readsBy.formsAgree id GraftSettings.decode_encode (fun _ _ => .rfl)
      (fun _ _ enough => GraftSettings.readsBy.read_sequence_eq enough) rfl
      (by simp [GraftSettings.rules, GraftSettings.shape])
  · exact ListSettings.readsBy.formsAgree id ListSettings.decode_encode (fun _ _ => .rfl)
      (fun _ _ enough => ListSettings.readsBy.read_sequence_eq enough) rfl
      (by simp [ListSettings.rules, ListSettings.shape])
  · exact Column.readsBy.formsAgree Column.toDraft Column.decode_encode
      (fun _ _ => Column.decode_mapping_eq_ok_iff)
      (fun _ hsome enough => Column.decode_sequence_eq hsome enough) rfl
      (by simp [Column.Draft.rules, Column.shape, Column.toDraft])

/-- A column whose entries come last first, with one for no field between them, and the same column
by position. -/
theorem settings_forms_agree_color :
    Column.decode (.mapping
      [("isCustomField", .boolean true), ("width", .integer 80), ("name", .string "color")]) =
        .ok ⟨"color", true⟩ ∧
    Column.decode (.sequence [.string "color", .boolean true]) = .ok ⟨"color", true⟩ ∧
    Column.decode (.sequence [.null]) = Column.decode (.mapping [("name", .null)]) := by
  have hforms := settings_forms_agree.2.2
  refine ⟨?_, ?_, ?_⟩
  · let entries : List (String × Data) :=
      [("name", .string "color"), ("width", .integer 80), ("isCustomField", .boolean true)]
    exact hforms.any_order entries entries.reverse _ (by simp [entries])
      (List.reverse_perm entries) rfl
  · rw [hforms.in_sequence _ (by simp) (by simp)]
    rfl
  · exact hforms.in_sequence _ (by simp) (by simp)

end QueryShaping
