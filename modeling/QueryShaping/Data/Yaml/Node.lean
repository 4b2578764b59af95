import QueryShaping.Data.Yaml.Token

namespace QueryShaping.Yaml

def missing : Data :=
  .plain "~"

def key? : Data → Option String
  | .string text => some text
  | .plain text => some text
  | _ => none

/-- What stands before a node: nothing, or an anchor, or a tag and maybe an anchor. -/
inductive Marking where
  | none
  | anchored
  | tagged

namespace Marking

def split : List Token → Marking × List Token
  | .anchor :: .tag :: rest => (.tagged, rest)
  | .tag :: .anchor :: rest => (.tagged, rest)
  | .anchor :: rest => (.anchored, rest)
  | .tag :: rest => (.tagged, rest)
  | tokens => (.none, tokens)

def apply : Marking → Data → Data
  | .tagged, .plain text => .string text
  | _, d => d

def alone? : Marking → Option Data
  | .none => Option.none
  | .anchored => some (.plain "")
  | .tagged => some (.string "")

end Marking

def Token.startsData (inMapping : Bool) : Token → Bool
  | .dash => inMapping
  | .key | .value | .blockEnd | .comma | .closeBracket | .closeBrace => false
  | _ => true

mutual

/-- The data at the head of a list of tokens, and what follows it. No call goes deeper than its
fuel. -/
def node? (inMapping : Bool) : Nat → List Token → Option (Data × List Token)
  | 0, _ => none
  | fuel + 1, tokens =>
    let (marking, tokens) := Marking.split tokens
    match tokens with
    | .scalar d :: left => some (marking.apply d, left)
    | .openBracket :: left =>
      (bracketItems? fuel left).map fun (items, left) => (.sequence items, left)
    | .openBrace :: left =>
      (braceEntries? fuel left).map fun (entries, left) => (.ofEntries entries, left)
    | .blockSequence :: left =>
      match dashItems? fuel left with
      | some (items, .blockEnd :: left) => some (.sequence items, left)
      | _ => none
    | .blockMapping :: left =>
      match blockEntries? fuel left with
      | some (entries, .blockEnd :: left) => some (.ofEntries entries, left)
      | _ => none
    | .dash :: left =>
      if inMapping then
        (dashItems? fuel (.dash :: left)).map fun (items, left) => (.sequence items, left)
      else marking.alone?.map fun d => (d, .dash :: left)
    | left => marking.alone?.map fun d => (d, left)

def value? (inMapping : Bool) : Nat → List Token → Option (Data × List Token)
  | 0, _ => none
  | fuel + 1, tokens =>
    if tokens.head?.all (Token.startsData inMapping) then node? inMapping fuel tokens
    else some (missing, tokens)

def pair? (inMapping : Bool) : Nat → List Token → Option ((Option String × Data) × List Token)
  | 0, _ => none
  | fuel + 1, tokens => do
    let (k, left) ←
      match tokens with
      | .key :: left => value? inMapping fuel left
      | left => some (missing, left)
    let (d, left) ←
      match left with
      | .value :: left => value? inMapping fuel left
      | left => some (missing, left)
    some ((key? k, d), left)

def dashItems? : Nat → List Token → Option (List Data × List Token)
  | 0, _ => none
  | fuel + 1, .dash :: left => do
    let (item, left) ← value? false fuel left
    (dashItems? fuel left).map fun (items, left) => (item :: items, left)
  | _ + 1, left => some ([], left)

def blockEntries? : Nat → List Token → Option (List (Option String × Data) × List Token)
  | 0, _ => none
  | fuel + 1, tokens =>
    match tokens with
    | .key :: _ | .value :: _ => do
      let (entry, left) ← pair? true fuel tokens
      (blockEntries? fuel left).map fun (entries, left) => (entry :: entries, left)
    | left => some ([], left)

/-- The items up to a closing bracket. A pair of a key and a value is a mapping of its own. -/
def bracketItems? : Nat → List Token → Option (List Data × List Token)
  | 0, _ => none
  | _ + 1, .closeBracket :: left => some ([], left)
  | fuel + 1, tokens => do
    let (item, left) ←
      match tokens with
      | .key :: _ => (pair? false fuel tokens).map fun (entry, left) => (.ofEntries [entry], left)
      | _ => node? false fuel tokens
    match left with
    | .comma :: left => (bracketItems? fuel left).map fun (items, left) => (item :: items, left)
    | .closeBracket :: left => some ([item], left)
    | _ => none

def braceEntries? : Nat → List Token → Option (List (Option String × Data) × List Token)
  | 0, _ => none
  | _ + 1, .closeBrace :: left => some ([], left)
  | fuel + 1, tokens => do
    let (entry, left) ←
      match tokens with
      | .key :: _ | .value :: _ => pair? false fuel tokens
      | _ => (node? false fuel tokens).map fun (k, left) => ((key? k, missing), left)
    match left with
    | .comma :: left =>
      (braceEntries? fuel left).map fun (entries, left) => (entry :: entries, left)
    | .closeBrace :: left => some ([entry], left)
    | _ => none

end

def read? (text : String) : Option Data := do
  let tokens ← Token.ofText? text
  let tokens :=
    match tokens with
    | .documentStart :: rest => rest
    | tokens => tokens
  match ← node? false (4 * tokens.length + 4) tokens with
  | (d, left) => if left.all (· matches .documentEnd) then some d else none

end QueryShaping.Yaml
