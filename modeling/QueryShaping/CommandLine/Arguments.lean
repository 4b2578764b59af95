namespace QueryShaping

inductive Command where
  | graft (base : String) (extensions : List String)
  | narrow (document columns : String) (listField : Option String)
  | sweep (document : String)
deriving DecidableEq

structure Invocation where
  logFilter : Option String
  settingsPath : Option String
  command : Command
deriving DecidableEq

def Command.paths : Command → List String
  | .graft base extensions => base :: extensions
  | .narrow document columns _ => [document, columns]
  | .sweep document => [document]

def Invocation.paths (i : Invocation) : List String :=
  i.settingsPath.toList ++ i.command.paths

namespace Arguments

inductive Flag where
  | log
  | config
  | listField
deriving DecidableEq

structure Parts where
  flags : List (Flag × String)
  operands : List String

def flag? : List Char → Option Flag
  | ['l', 'o', 'g'] => some .log
  | ['c', 'o', 'n', 'f', 'i', 'g'] => some .config
  | ['l', 'i', 's', 't', '-', 'f', 'i', 'e', 'l', 'd'] => some .listField
  | _ => none

def isOperand (argument : String) : Bool :=
  argument.toList.head? != some '-' || argument == "-"

def option? (argument : String) : Option (Flag × Option String) :=
  match argument.toList with
  | '-' :: '-' :: text =>
    match text.dropWhile (· != '=') with
    | [] => (flag? text).map fun f => (f, none)
    | _ :: value =>
      (flag? (text.takeWhile (· != '='))).map fun f => (f, some (String.ofList value))
  | _ => none

/-- Takes the flags that stand first, up to an operand or two dashes. -/
def leading? : List String → Option (List (Flag × String) × List String)
  | [] => some ([], [])
  | argument :: rest =>
    if isOperand argument || argument == "--" then some ([], argument :: rest)
    else
      match option? argument, rest with
      | none, _ => none
      | some (f, some value), rest =>
        (leading? rest).map fun (flags, left) => ((f, value) :: flags, left)
      | some (_, none), [] => none
      | some (f, none), value :: rest =>
        if isOperand value then (leading? rest).map fun (flags, left) => ((f, value) :: flags, left)
        else none

def mixed? : List String → Option Parts
  | [] => some ⟨[], []⟩
  | argument :: rest =>
    if argument == "--" then some ⟨[], rest⟩
    else if isOperand argument then (mixed? rest).map fun p => ⟨p.flags, argument :: p.operands⟩
    else
      match option? argument, rest with
      | none, _ => none
      | some (f, some value), rest =>
        (mixed? rest).map fun p => ⟨(f, value) :: p.flags, p.operands⟩
      | some (_, none), [] => none
      | some (f, none), value :: rest =>
        if isOperand value then (mixed? rest).map fun p => ⟨(f, value) :: p.flags, p.operands⟩
        else none

/-- No flag is given twice, and a settings path is not empty. -/
def areSound (flags : List (Flag × String)) : Bool :=
  (flags.map (·.1)).Nodup && flags.all fun (f, value) => f != .config || value != ""

def value? (f : Flag) (flags : List (Flag × String)) : Option String :=
  flags.lookup f

def command? (word : String) (parts : Parts) : Option Command :=
  let listField := value? .listField parts.flags
  match word, parts.operands with
  | "extend", base :: first :: rest =>
    if listField.isNone then some (.graft base (first :: rest)) else none
  | "prune", [document, columns] => some (.narrow document columns listField)
  | "shake", [document] => if listField.isNone then some (.sweep document) else none
  | _, _ => none

def read? (arguments : List String) : Option Invocation := do
  let (before, rest) ← leading? arguments
  match rest with
  | [] => none
  | word :: rest =>
    let parts ← mixed? rest
    let command ← command? word parts
    if areSound before && areSound parts.flags && (value? .listField before).isNone
        && parts.operands.all (· != "") then
      some ⟨value? .log (parts.flags ++ before), value? .config (parts.flags ++ before), command⟩
    else none

end Arguments

end QueryShaping
