import QueryShaping.Data.Decoding
import QueryShaping.Source.Reading

namespace QueryShaping

/-- How the source text of an extension is read: the path named in diagnostics, and bounds that
take the place of the usual ones. -/
structure GraftSettings where
  sourcePath : String := "extension.graphql"
  depthLimit : Option Nat := none
  tokenLimit : Option Nat := none
deriving DecidableEq

/-- The fields of a list query. Without a list field, any root field with items will do. -/
structure ListSettings where
  listField : Option String := none
  itemsField : String := "items"
  identityField : String := "id"
  customField : String := "customFields"
deriving DecidableEq

structure Column where
  name : String
  isCustom : Bool
deriving DecidableEq

structure Settings where
  graft : GraftSettings := {}
  list : ListSettings := {}
deriving DecidableEq

def GraftSettings.limits (s : GraftSettings) : SourceLimits :=
  ⟨s.depthLimit.getD SourceLimits.usual.depth, s.tokenLimit⟩

namespace GraftSettings

def shape : RecordShape GraftSettings where
  name := "ExtendOptions"
  fields := [
    ⟨"source_path", fun d s => (Decode.text d).map fun v => { s with sourcePath := v }⟩,
    ⟨"recursion_limit", fun d s =>
      (Decode.optional Decode.count d).map fun v => { s with depthLimit := v }⟩,
    ⟨"token_limit", fun d s =>
      (Decode.optional Decode.count d).map fun v => { s with tokenLimit := v }⟩]
  initial := {}
  refusesOthers := true

def decode (d : Data) : Except DecodeError GraftSettings :=
  shape.read d

end GraftSettings

def encodeOptional (encode : α → Data) : Option α → Data
  | none => .null
  | some a => encode a

def GraftSettings.encode (s : GraftSettings) : Data :=
  .mapping [
    ("source_path", .string s.sourcePath),
    ("recursion_limit", encodeOptional (fun n => .integer (n : Nat)) s.depthLimit),
    ("token_limit", encodeOptional (fun n => .integer (n : Nat)) s.tokenLimit)]

namespace ListSettings

def shape : RecordShape ListSettings where
  name := "PruneOptions"
  fields := [
    ⟨"list_field", fun d s =>
      (Decode.optional Decode.text d).map fun v => { s with listField := v }⟩,
    ⟨"items_field", fun d s => (Decode.text d).map fun v => { s with itemsField := v }⟩,
    ⟨"identity_field", fun d s => (Decode.text d).map fun v => { s with identityField := v }⟩,
    ⟨"custom_fields_field", fun d s => (Decode.text d).map fun v => { s with customField := v }⟩]
  initial := {}
  refusesOthers := true

def decode (d : Data) : Except DecodeError ListSettings :=
  shape.read d

def encode (s : ListSettings) : Data :=
  .mapping [
    ("list_field", encodeOptional .string s.listField),
    ("items_field", .string s.itemsField),
    ("identity_field", .string s.identityField),
    ("custom_fields_field", .string s.customField)]

end ListSettings

namespace Column

def field (name : String) : Column :=
  ⟨name, false⟩

def customField (name : String) : Column :=
  ⟨name, true⟩

structure Draft where
  name : Option String := none
  isCustom : Bool := false

def shape : RecordShape Draft where
  name := "ColumnSelection"
  fields := [
    ⟨"name", fun d c => (Decode.text d).map fun v => { c with name := some v }⟩,
    ⟨"isCustomField", fun d c => (Decode.truth d).map fun v => { c with isCustom := v }⟩]
  initial := {}
  refusesOthers := false

def Draft.finish (c : Draft) : Except DecodeError Column :=
  match c.name with
  | none => .error (.missingField "name")
  | some name => .ok ⟨name, c.isCustom⟩

/-- A missing name is found last, but a sequence without items has none from the start. -/
def decode : Data → Except DecodeError Column
  | .sequence [] => .error (.noItems shape.name shape.fields.length)
  | d => do (← shape.read d).finish

def encode (c : Column) : Data :=
  .mapping [("name", .string c.name), ("isCustomField", .boolean c.isCustom)]

def decodeList (d : Data) : Except DecodeError (List Column) :=
  Decode.list decode d

end Column

namespace Settings

def shape : RecordShape Settings where
  name := "Config"
  fields := [
    ⟨"extend", fun d s => (GraftSettings.decode d).map fun v => { s with graft := v }⟩,
    ⟨"prune", fun d s => (ListSettings.decode d).map fun v => { s with list := v }⟩]
  initial := {}
  refusesOthers := true

def decode (d : Data) : Except DecodeError Settings :=
  shape.read d

end Settings

end QueryShaping
