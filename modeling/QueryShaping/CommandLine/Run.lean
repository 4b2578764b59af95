import QueryShaping.CommandLine.Arguments
import QueryShaping.CommandLine.LogFilter
import QueryShaping.CommandLine.Path
import QueryShaping.Data.Yaml.Node
import QueryShaping.Data.Json
import QueryShaping.Document.Written
import QueryShaping.Graft.Document
import QueryShaping.ListQuery.Narrowing

namespace QueryShaping

/-- What can be read: a file has a text, or there is a reason why it cannot be read. Standard input
is empty once it has been read. -/
structure Inputs where
  file? : String → Except String String
  stdin : String

/-- Why a run fails. There is no problem with settings or columns as such where already the text of
the file is malformed. -/
inductive CommandError where
  | usage
  | logFilter
  | unread (path reason : String)
  | unparsed (path : String) (source : UnreadableSource)
  | settings (path : String) (problem : Option DecodeError)
  | columns (path : String) (problem : Option DecodeError)
  | extension (path : String) (error : GraftError)

namespace CommandError

def context : CommandError → String
  | .usage => "usage"
  | .logFilter => "could not parse log level"
  | .unread path _ => "could not read " ++ path
  | .unparsed path _ => "could not parse " ++ path
  | .settings path _ => "could not parse configuration " ++ path
  | .columns path _ => "could not parse columns in " ++ path
  | .extension path _ => "could not apply extension " ++ path

/-- Why it failed, where more is known than what was being done. The place of a problem in a
settings or columns file is left out. -/
def cause? : CommandError → Option String
  | .unread _ reason => some reason
  | .unparsed _ source => some source.message
  | .settings _ problem => problem.map (·.message)
  | .columns _ problem => problem.map (·.message)
  | .extension _ error => some error.message
  | _ => none

end CommandError

namespace Inputs

def gather {m : Type → Type} [Monad m] (readFile : String → m (Except String String))
    (readStdin : m String) (paths : List String) : m Inputs := do
  let files ← (paths.filter (!Path.isStandardInput ·)).mapM fun path => do
    pure (path, ← readFile path)
  let stdin ← if paths.any Path.isStandardInput then readStdin else pure ""
  pure ⟨fun path => (files.lookup path).getD (.error Directory.noSuchFile), stdin⟩

def read (inputs : Inputs) (path : String) : Except CommandError (String × Inputs) :=
  if Path.isStandardInput path then .ok (inputs.stdin, { inputs with stdin := "" })
  else
    match inputs.file? path with
    | .ok text => .ok (text, inputs)
    | .error reason => .error (.unread path reason)

def readDocument (inputs : Inputs) (path : String) : Except CommandError (Document × Inputs) := do
  let (text, inputs) ← inputs.read path
  match Document.read .usual text with
  | .ok d => .ok (d, inputs)
  | .error faults => .error (.unparsed path ⟨path, text, faults⟩)

def readSettings (inputs : Inputs) : Option String → Except CommandError (Settings × Inputs)
  | none => .ok ({}, inputs)
  | some path => do
    let (text, inputs) ← inputs.read path
    match (Yaml.read? text).map Settings.decode with
    | some (.ok settings) => .ok (settings, inputs)
    | some (.error problem) => .error (.settings path (some problem))
    | none => .error (.settings path none)

def readColumns (inputs : Inputs) (path : String) :
    Except CommandError (List Column × Inputs) := do
  let (text, inputs) ← inputs.read path
  match (Json.read? text).map Column.decodeList with
  | some (.ok columns) => .ok (columns, inputs)
  | some (.error problem) => .error (.columns path (some problem))
  | none => .error (.columns path none)

/-- Reads extensions and applies each before the next is read. -/
def graftFiles (settings : GraftSettings) (inputs : Inputs) (base : Document) :
    List String → Except CommandError Document
  | [] => .ok base
  | path :: rest =>
    match inputs.read path with
    | .error e => .error e
    | .ok (text, inputs) =>
      match base.graftSource settings (.source text) with
      | .error e => .error (.extension path e)
      | .ok d => graftFiles settings inputs d rest

end Inputs

def Command.run (settings : Settings) (inputs : Inputs) : Command → Except CommandError Document
  | .graft base extensions => do
    let (d, inputs) ← inputs.readDocument base
    inputs.graftFiles settings.graft d extensions
  | .narrow document columns listField => do
    let (d, inputs) ← inputs.readDocument document
    let (list, _) ← inputs.readColumns columns
    let s := { settings.list with listField := listField <|> settings.list.listField }
    pure (d.narrow s list)
  | .sweep document => do
    let (d, _) ← inputs.readDocument document
    pure d.sweep

/-- The result of a command line. A log filter from outside takes the place of the one given. -/
def runCommandLine (arguments : List String) (logFilter : Option String) (inputs : Inputs) :
    Except CommandError Document := do
  match Arguments.read? arguments with
  | none => .error .usage
  | some invocation =>
    if LogFilter.isValid ((logFilter <|> invocation.logFilter).getD "warn") then do
      let (settings, inputs) ← inputs.readSettings invocation.settingsPath
      invocation.command.run settings inputs
    else .error .logFilter

end QueryShaping
