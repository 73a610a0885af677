import FieldRules.Program

/-!
# The command line program

Reads the environment and the files that a run looks at, runs the program, and puts its output and the files that
it changed where they belong.
-/

namespace FieldRules

/-- The path from the root that steps make. -/
def rootPath (steps : List String) : String := "/" ++ "/".intercalate steps

/-- What is at a path; what is there and cannot be read counts as a directory. -/
def readEntry (path : String) : IO (Option FileEntry) := do
  try
    return some (.file (String.fromUTF8? (← IO.FS.readBinFile path)))
  catch
    | .noFileOrDirectory .. => return none
    | _ => return some .directory

/-- Reads what is found along steps into a tree. -/
def readAlong (t : FileTree) (directory : List String) : List String → IO FileTree
  | [] => return t
  | step :: rest => do
    let next := directory ++ [step]
    match ← readEntry (rootPath next) with
    | none => return t
    | some .directory => readAlong (t.setEntry next .directory) next rest
    | some e => return t.setEntry next e

def readPath (t : FileTree) (path : String) : IO FileTree := readAlong t [] (t.stepsTo path)

/-- Writes a file with the directories that lead to it. -/
def writeBack (name text : String) : IO Unit := do
  let steps := Path.steps name
  IO.FS.createDirAll (rootPath steps.dropLast)
  IO.FS.writeFile (rootPath steps) text

/-- Reads the variables of the environment that the program knows. -/
def readEnvironment : IO Environment := do
  let entries ← Program.variableNames.filterMapM fun name => do
    return (← IO.getEnv name).map (name, ·)
  return (entries.lookup ·)

/-- Reads the files that a run looks at: those that the command line names or that are looked for in any case,
and then the log file, which the configuration may name. -/
def readSurroundings (words : List String) : IO Surroundings := do
  let environment ← readEnvironment
  let start := FileTree.bare (Path.steps (toString (← IO.currentDir)))
  let files ← (Program.paths environment words).foldlM readPath start
  let files ← (Program.logPath? ⟨environment, files, false⟩ words).toList.foldlM readPath files
  return ⟨environment, files, ← (← IO.getStdout).isTty⟩

end FieldRules

open FieldRules in
def main (words : List String) : IO UInt32 := do
  let surroundings ← readSurroundings words
  let result := Program.run surroundings words
  for (name, text) in surroundings.files.changedFiles result.files do
    writeBack name (text.getD "")
  let output ← IO.getStdout
  output.putStr result.output
  output.flush
  (← IO.getStderr).putStr result.errors
  return result.exitCode.toUInt32
