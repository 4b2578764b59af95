import QueryShaping.CommandLine.Run

namespace QueryShaping.Main

def usage : String :=
  "usage: [--log FILTER] [--config PATH] extend BASE EXTENSION...\n"
    ++ "       [--log FILTER] [--config PATH] prune DOCUMENT COLUMNS [--list-field NAME]\n"
    ++ "       [--log FILTER] [--config PATH] shake DOCUMENT"

def reason : IO.Error → String
  | .noFileOrDirectory _ _ _ => Directory.noSuchFile
  | .permissionDenied _ _ _ => "Permission denied (os error 13)"
  | .inappropriateType _ code _ =>
    if code == 21 then "Is a directory (os error 21)" else "Not a directory (os error 20)"
  | .userError _ => "stream did not contain valid UTF-8"
  | e => toString e

def readFile (path : String) : IO (Except String String) := do
  try
    let text ← IO.FS.readFile path
    pure (.ok text)
  catch e => pure (.error (reason e))

def readStdin : IO String := do
  (← IO.getStdin).readToEnd

def report (e : CommandError) : IO Unit := do
  IO.eprintln ("Error: " ++ e.context)
  match e.cause? with
  | none => pure ()
  | some cause => IO.eprintln ("\nCaused by:\n    " ++ cause)

def run (arguments : List String) : IO UInt32 := do
  let paths := ((Arguments.read? arguments).map Invocation.paths).getD []
  let inputs ← Inputs.gather readFile readStdin paths
  match runCommandLine arguments (← IO.getEnv "RUST_LOG") inputs with
  | .ok d => do
    IO.println (Written.document d)
    pure 0
  | .error .usage => do
    IO.eprintln usage
    pure 2
  | .error e => do
    report e
    pure 1

end QueryShaping.Main

def main (arguments : List String) : IO UInt32 :=
  QueryShaping.Main.run arguments
