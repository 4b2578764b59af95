import QueryShaping.Data.Tree
import QueryShaping.Text.Numeral
import QueryShaping.Text.Quoted
import QueryShaping.Text.StringLiteral

namespace QueryShaping

inductive DecodeError where
  | unknownField (key : String) (known : List String)
  | missingField (key : String)
  | repeatedField (key : String)
  | noItems (record : String) (wanted : Nat)
  | surplusItems (count : Nat)
  | mismatch (found : Data) (wanted : String)
  | negative (found : Int) (wanted : String)

namespace Data

def description : Data → String
  | .null => "null"
  | .boolean truth => "boolean `" ++ (if truth then "true" else "false") ++ "`"
  | .integer value => "integer `" ++ toString value ++ "`"
  | .real value => "floating point `" ++ value.shown ++ "`"
  | .string text => "string " ++ Quoted.quoted text
  | .plain text => "string " ++ Quoted.quoted text
  | .garbled => "string"
  | .sequence _ => "sequence"
  | .mapping _ => "map"

end Data

namespace DecodeError

def inBackquotes (key : String) : String :=
  "`" ++ key ++ "`"

def choice (keys : List String) : String :=
  match keys with
  | [] => "there are no fields"
  | [a] => "expected " ++ inBackquotes a
  | [a, b] => "expected " ++ inBackquotes a ++ " or " ++ inBackquotes b
  | _ => "expected one of " ++ String.intercalate ", " (keys.map inBackquotes)

def message : DecodeError → String
  | .unknownField key known => "unknown field " ++ inBackquotes key ++ ", " ++ choice known
  | .missingField key => "missing field " ++ inBackquotes key
  | .repeatedField key => "duplicate field " ++ inBackquotes key
  | .noItems record wanted =>
    "invalid length 0, expected struct " ++ record ++ " with " ++ toString wanted ++ " elements"
  | .surplusItems count =>
    "invalid length " ++ toString count ++ ", expected fewer elements in array"
  | .mismatch found wanted => "invalid type: " ++ found.description ++ ", expected " ++ wanted
  | .negative found wanted =>
    "invalid value: " ++ (Data.integer found).description ++ ", expected " ++ wanted

end DecodeError

namespace Decode

def text : Data → Except DecodeError String
  | .string s => .ok s
  | .plain s => .ok s
  | d => .error (.mismatch d "a string")

def truth : Data → Except DecodeError Bool
  | .boolean b => .ok b
  | d => .error (.mismatch d "a boolean")

def base? (c : Char) : Option Nat :=
  [('x', 16), ('o', 8), ('b', 2)].lookup c

def withoutPlus : List Char → List Char
  | '+' :: rest => rest
  | cs => cs

def numberIn? (base : Nat) (cs : List Char) : Option Nat := do
  let values ← cs.mapM StringLiteral.hexValue?
  if !values.isEmpty && values.all (· < base) then
    some (values.foldl (fun n v => base * n + v) 0)
  else none

def unsigned? (cs : List Char) : Option Nat :=
  let decimal :=
    match Numeral.whole? cs with
    | some (digits, []) => some (Numeral.natOfDigits digits)
    | _ => none
  match cs with
  | '0' :: c :: rest =>
    match base? c with
    | some base => numberIn? base rest
    | none => decimal
  | _ => decimal

/-- The number of a scalar with or without a plus sign. A plus sign may also stand after the letter
of a base. -/
def signed? (cs : List Char) : Option Nat :=
  match withoutPlus cs with
  | '0' :: c :: '+' :: rest => if (base? c).isSome then unsigned? ('0' :: c :: rest) else none
  | cs => unsigned? cs

/-- The count a plain scalar stands for. The only negative one is zero. -/
def plainCount? (text : String) : Option Nat :=
  match text.toList with
  | '-' :: rest => if unsigned? rest = some 0 then some 0 else none
  | cs => (signed? cs).bind fun n => if n < UInt64.size then some n else none

def countName : String :=
  "usize"

def count : Data → Except DecodeError Nat
  | .integer n => if 0 ≤ n then .ok n.toNat else .error (.negative n countName)
  | .plain s =>
    match plainCount? s with
    | some n => .ok n
    | none => .error (.mismatch (.plain s) countName)
  | d => .error (.mismatch d countName)

def isAbsent : Data → Bool
  | .null => true
  | .plain s => ["~", "null"].contains s
  | _ => false

def optional (read : Data → Except DecodeError α) (d : Data) : Except DecodeError (Option α) :=
  if isAbsent d then .ok none else some <$> read d

end Decode

structure RecordField (ρ : Type) where
  key : String
  update : Data → ρ → Except DecodeError ρ

/-- A record: its name in messages, its fields in order, its value before any field is read, and
whether keys that belong to no field are refused. -/
structure RecordShape (ρ : Type) where
  name : String
  fields : List (RecordField ρ)
  initial : ρ
  refusesOthers : Bool

namespace RecordShape

variable {ρ : Type}

def field? (shape : RecordShape ρ) (key : String) : Option (RecordField ρ) :=
  shape.fields.find? (·.key == key)

def readEntries (shape : RecordShape ρ) (met : List String) :
    List (String × Data) → ρ → Except DecodeError ρ
  | [], r => .ok r
  | (key, d) :: rest, r =>
    match shape.field? key with
    | none =>
      if shape.refusesOthers then .error (.unknownField key (shape.fields.map (·.key)))
      else shape.readEntries met rest r
    | some f =>
      if met.contains key then .error (.repeatedField key)
      else
        match f.update d r with
        | .error e => .error e
        | .ok r => shape.readEntries (key :: met) rest r

def readItems (count : Nat) : List (RecordField ρ) → List Data → ρ → Except DecodeError ρ
  | _, [], r => .ok r
  | [], _ :: _, _ => .error (.surplusItems count)
  | f :: fields, d :: rest, r =>
    match f.update d r with
    | .error e => .error e
    | .ok r => readItems count fields rest r

def read (shape : RecordShape ρ) : Data → Except DecodeError ρ
  | .mapping entries => shape.readEntries [] entries shape.initial
  | .sequence items => readItems items.length shape.fields items shape.initial
  | d => .error (.mismatch d ("struct " ++ shape.name))

end RecordShape

def Decode.list (read : Data → Except DecodeError α) : Data → Except DecodeError (List α)
  | .sequence items => items.mapM read
  | d => .error (.mismatch d "a sequence")

end QueryShaping
