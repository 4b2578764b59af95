import QueryShaping.Source.Diagnostic
import QueryShaping.Source.TypeSystemGrammar

namespace QueryShaping

/-- Bounds on what is read: levels of nesting, and tokens with the end of the text among them. -/
structure SourceLimits where
  depth : Nat
  tokens : Option Nat

def SourceLimits.usual : SourceLimits :=
  ⟨500, none⟩

namespace Grammar

open Rule

/-- A definition after a description, with no comma between the two. The keyword of a fragment
definition is taken for the fragment's name there. -/
def described (depth : Nat) : Rule Definition := do
  match ← second with
  | none => failure
  | some (.name "fragment") => do
    let _ ← next
    .fragment <$> fragment depth
  | some _ => .typeSystem <$> typeSystem depth

def definitionFrom? (depth : Nat) : Lexeme → Option (Rule Definition)
  | .mark '{' => some do
    let selections ← selectionSet depth
    pure (.operation ⟨.query, none, [], [], selections⟩)
  | .string _ => some (described depth)
  | .name "fragment" => some do
    let _ ← Rule.next
    .fragment <$> fragment depth
  | .name word =>
    match operationKind? word with
    | some kind => some do
      let _ ← Rule.next
      .operation <$> operation kind depth
    | none =>
      if ["schema", "scalar", "type", "interface", "union", "enum", "input", "extend",
          "directive"].contains word then
        some (.typeSystem <$> typeSystem depth)
      else none
  | _ => none

def strayFault : Lexeme → SourceFault
  | .name _ => .strayName
  | _ => .strayMark

def definitions (depth : Nat) (tokens : List Token) : List Definition × List Diagnostic :=
  match tokens with
  | [] => ([], [])
  | t :: rest =>
    match definitionFrom? depth t.lexeme with
    | none =>
      let (read, faults) := definitions depth rest
      (read, ⟨strayFault t.lexeme, t.position⟩ :: faults)
    | some rule =>
      match rule (t :: rest) with
      | none => ([], [⟨.malformedDefinition, t.position⟩])
      | some (d, left) =>
        if left.length < (t :: rest).length then
          let (read, faults) := definitions depth left
          (d :: read, faults)
        else ([], [⟨.malformedDefinition, t.position⟩])
termination_by tokens.length
decreasing_by
  · simp
  · assumption

end Grammar

def SourceLimits.allowTokens (limits : SourceLimits) (count : Nat) : Bool :=
  match limits.tokens with
  | none => true
  | some limit => count ≤ limit

def Document.read (limits : SourceLimits) (source : String) : Except (List Diagnostic) Document :=
  match Token.scan 0 source.toList with
  | none => .error [⟨.malformedText, 0⟩]
  | some tokens =>
    if limits.allowTokens (tokens.length + 1) then
      match Grammar.definitions limits.depth (Token.significant tokens) with
      | ([], []) => .error [⟨.noDefinition, 0⟩]
      | (read, []) => .ok ⟨read⟩
      | (_, faults) => .error faults
    else .error [⟨.malformedText, 0⟩]

end QueryShaping
