import SqlTables.CommandLine.Run

/-! The command line program. -/

namespace SqlTables.CommandLine

def readText? (path : String) : IO (Option String) := do
  try
    return some (← IO.FS.readFile path)
  catch _ =>
    return none

def readTexts (paths : List String) : IO (List (String × String)) :=
  paths.foldlM
    (fun found path => do
      match ← readText? path with
      | some text => return (path, text) :: found
      | none => return found)
    []

def fail (f : Failure) : IO UInt32 := do
  IO.eprintln f.message
  return 1

def writeOutput : Output → IO UInt32
  | .nothing => return 0
  | .print text => do
    IO.println text
    return 0
  | .save path text => do
    try
      IO.FS.writeFile path text
      return 0
    catch _ =>
      fail (.file path)

end SqlTables.CommandLine

open SqlTables CommandLine in
def main (args : List String) : IO UInt32 := do
  match request? false args with
  | none =>
    IO.eprintln helpText
    return 2
  | some .help =>
    IO.println helpText
    return 0
  | some .version =>
    IO.println versionText
    return 0
  | some (.run c) =>
    let files ← readTexts c.inputs
    match c.execute (fun path => files.lookup path) with
    | .error f => fail f
    | .ok output => writeOutput output
