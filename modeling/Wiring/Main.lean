import Wiring.Command

/-!
# The program

Reads the files under the working directory and the variables of the process, and answers the
command.
-/

open Wiring

/-- The parts of a path. -/
def pathParts (path : String) : List String :=
  ((path.toList.splitOn '/').map String.ofList).filter (!·.isEmpty)

/-- The exported variables that the command looks at. -/
def variableNames : List String :=
  ["NO_COLOR", "CLICOLOR", "CLICOLOR_FORCE", "TERM", "CONFGRAPH_DESCRIPTOR"]

/-- The files under the working directory. -/
def filesBelow : IO (List (List String × List UInt8)) := do
  let paths ← (← IO.currentDir).walkDir
  let mut files := []
  for path in paths do
    if !(← path.isDir) then
      let content ← IO.FS.readBinFile path
      files := (pathParts path.toString, content.toList) :: files
  return files

def main (arguments : List String) : IO UInt32 := do
  let directory := (← IO.currentDir).toString
  let files ← filesBelow
  let mut exported : Table String := Table.empty
  for name in variableNames do
    if let some value ← IO.getEnv name then
      exported := exported.insert name value
  let surroundings : Surroundings :=
    { files := ⟨pathParts directory, files⟩
      exported
      colorTerminal := (← (← IO.getStdout).isTty) }
  let answer := surroundings.answer arguments
  IO.print answer.output
  if let some e := answer.error? then
    IO.eprintln ("Error: " ++ e)
  return answer.exitCode.toUInt32
