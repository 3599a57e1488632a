import LiveTemplate.Command.Invocation

/-! The command line program. -/

namespace LiveTemplate

def loadFiles (paths : List String) : IO (List (String × String)) :=
  paths.filterMapM fun (path : String) => do
    match ← (IO.FS.readFile path).toBaseIO with
    | .ok text => return some (path, text)
    | .error _ => return none

def errorLines (messages : List String) : List String :=
  match messages with
  | [] => []
  | message :: [] => [s!"Error: {message}"]
  | message :: causes => s!"Error: {message}" :: "" :: "Caused by:" :: causes.map ("    " ++ ·)

def runProgram (arguments : List String) : IO UInt32 := do
  let paths := match Invocation.read arguments with
    | .ok invocation => invocation.paths
    | .error _ => []
  let loaded ← loadFiles paths
  let answer := Invocation.answer (fun path => loaded.lookup path) arguments
  IO.print answer.output
  match answer with
  | .lines _ => pure ()
  | .misuse => helpLines.forM IO.eprintln
  | .failed error => (errorLines error.messages).forM IO.eprintln
  return answer.exitCode.toUInt32

end LiveTemplate

def main (arguments : List String) : IO UInt32 :=
  LiveTemplate.runProgram arguments
