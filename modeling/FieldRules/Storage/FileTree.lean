import FieldRules.NameMap
import FieldRules.Storage.Path

/-!
# Files

Files and directories as far as a run of the program can see and change them, and the working directory that
relative paths start from. Entries are named by their steps from the root.
-/

namespace FieldRules

inductive FileEntry where
  | directory
  /-- A file with its text; a file whose bytes are no text has none. -/
  | file (text : Option String)
  deriving DecidableEq

/-- Why a file could not be read or written. -/
inductive FileFault where
  | notFound
  | alreadyThere
  | notDirectory
  | isDirectory
  | notText
  deriving DecidableEq

def FileFault.message : FileFault → String
  | notFound => "No such file or directory (os error 2)"
  | alreadyThere => "File exists (os error 17)"
  | notDirectory => "Not a directory (os error 20)"
  | isDirectory => "Is a directory (os error 21)"
  | notText => "stream did not contain valid UTF-8"

structure FileTree where
  entries : NameMap FileEntry
  /-- The steps from the root to the working directory. -/
  here : List String

namespace FileTree

/-- The entry that steps from the root lead to. -/
def entry? (t : FileTree) (steps : List String) : Option FileEntry :=
  if steps.isEmpty then some .directory else t.entries.find? ("/".intercalate steps)

def setEntry (t : FileTree) (steps : List String) (e : FileEntry) : FileTree :=
  { t with entries := t.entries.insert ("/".intercalate steps) e }

/-- Makes the directories that lead from one directory to another, as far as nothing is there. -/
def addDirectories (t : FileTree) (start : List String) : List String → FileTree
  | [] => t
  | step :: rest =>
    let next := start ++ [step]
    let t := if (t.entry? next).isSome then t else t.setEntry next .directory
    t.addDirectories next rest

/-- A tree with nothing in it but the working directory. -/
def bare (here : List String) : FileTree := (FileTree.mk .empty here).addDirectories [] here

/-- The directory that a path starts from. -/
def origin (t : FileTree) (path : String) : List String := if Path.isAbsolute path then [] else t.here

/-- The steps from the root to what a path names. -/
def stepsTo (t : FileTree) (path : String) : List String :=
  (Path.steps path).foldl (fun steps step => if step == ".." then steps.dropLast else steps ++ [step]) (t.origin path)

/-- Puts an entry into the tree, with the directories that lead to it. -/
def put (t : FileTree) (path : String) (e : FileEntry) : FileTree :=
  let steps := t.stepsTo path
  (t.addDirectories [] steps.dropLast).setEntry steps e

/-- Follows the pieces of a path from a directory. The directory above the root is the root. -/
def follow (t : FileTree) (directory : List String) : List String → Option FileEntry
  | [] => some .directory
  | piece :: rest =>
    if piece == "" || piece == "." then t.follow directory rest
    else if piece == ".." then t.follow directory.dropLast rest
    else
      match t.entry? (directory ++ [piece]) with
      | some .directory => t.follow (directory ++ [piece]) rest
      | some e => if rest.isEmpty then some e else none
      | none => none

/-- The entry that a path leads to. -/
def find? (t : FileTree) (path : String) : Option FileEntry :=
  if path.isEmpty then none else t.follow (t.origin path) (Path.pieces path)

def contains (t : FileTree) (path : String) : Bool := (t.find? path).isSome

def read (t : FileTree) (path : String) : Except FileFault String :=
  match t.find? path with
  | some (.file (some text)) => .ok text
  | some (.file none) => .error .notText
  | some .directory => .error .isDirectory
  | none => .error .notFound

/-- Follows steps from a directory and makes the directories that are missing. -/
def enter (t : FileTree) (directory : List String) : List String → Except FileFault (FileTree × List String)
  | [] => .ok (t, directory)
  | step :: rest =>
    if step == ".." then t.enter directory.dropLast rest
    else
      let next := directory ++ [step]
      match t.entry? next with
      | some .directory => t.enter next rest
      | some (.file _) => .error (if rest.isEmpty then .alreadyThere else .notDirectory)
      | none => (t.setEntry next .directory).enter next rest

/-- Prepares the directory of a file: the tree with the directory in it, and the steps to the file. -/
def prepare (t : FileTree) (path : String) : Except FileFault (FileTree × List String) :=
  match Path.fileName? path with
  | none => .error (if path.isEmpty then .notFound else .isDirectory)
  | some name => do
    let (t, directory) ← t.enter (t.origin path) (Path.steps path).dropLast
    return (t, directory ++ [name])

/-- Why a path cannot be written to that ends in pieces that stay in place, behind the entry of its last step: a dot
is a step inside a directory, and a slash alone asks for a directory. -/
def endingFault? (e : Option FileEntry) (ending : List String) : Option FileFault :=
  if e = some .directory then some .isDirectory
  else if ending.contains "." then some (if e.isNone then .notFound else .notDirectory)
  else if ending.isEmpty then none
  else some .isDirectory

/-- Writes a text to a file, in place of what it held; the directories that lead to it are made. -/
def write (t : FileTree) (path text : String) : Except FileFault FileTree := do
  let (t, steps) ← t.prepare path
  match endingFault? (t.entry? steps) (Path.ending path) with
  | some fault => throw fault
  | none => return t.setEntry steps (.file (some text))

/-- Opens a file for adding to it: it is there afterwards and holds what it held before. -/
def touch (t : FileTree) (path : String) : Except FileFault FileTree := do
  let (t, steps) ← t.prepare path
  match t.entry? steps with
  | some .directory => throw .isDirectory
  | some _ => return t
  | none => return t.setEntry steps (.file (some ""))

/-- The steps of a name, if it lies below the working directory. -/
def below? (t : FileTree) (name : String) : Option (List String) :=
  let steps := Text.split '/' name
  if t.here.isPrefixOf steps && t.here.length < steps.length then some (steps.drop t.here.length) else none

/-- The files of a tree that are new or changed against an earlier one, by their steps from the root. -/
def changedFiles (earlier later : FileTree) : List (String × Option String) :=
  later.entries.entries.filterMap fun (name, e) =>
    match e with
    | .directory => none
    | .file text => if earlier.entries.find? name = some e then none else some (name, text)

end FileTree

end FieldRules
