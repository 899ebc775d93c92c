import FrontEnd.CommandLine.Respond

/-!
The command. It reads the sources that are asked for and writes the answer.
-/

namespace FrontEnd.CommandLine

/-- The name of the file is in faults of opening only. -/
def readErrorOf (file : String) : IO.Error → ReadError
  | .noFileOrDirectory .. => .missing file
  | .inappropriateType (some _) .. => .notFolder file
  | .inappropriateType none .. => .folder
  | .invalidArgument (some _) .. => .nameTooLong file
  | .permissionDenied (some _) .. => .denied file
  | e => .other s!"{file}: {e}"

def readSource (file : String) : IO (Except ReadError String) := do
  try
    let bytes ←
      if file == "-" then (← IO.getStdin).readBinToEnd else IO.FS.readBinFile file
    return decode bytes
  catch e => return .error (readErrorOf file e)

def sourcesOf (i : Invocation) : IO (List (String × Except ReadError String)) :=
  i.inputs.mapM fun file => return (file, ← readSource file)

end FrontEnd.CommandLine

def main (args : List String) : IO UInt32 := do
  let invocation := FrontEnd.CommandLine.Invocation.ofArguments args
  let sources ← FrontEnd.CommandLine.sourcesOf invocation
  let response := invocation.respond fun file =>
    ((sources.find? fun s => s.1 == file).map (·.2)).getD (.error (.missing file))
  IO.print response.stdout
  IO.eprint response.stderr
  return response.exitCode.toUInt32
