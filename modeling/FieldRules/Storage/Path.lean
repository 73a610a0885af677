import FieldRules.Text.Split

/-!
# Paths

The parts of a path as text: its components, the file that it names, and the extension of that file. Slashes at
the end and steps that stay in place do not count.
-/

namespace FieldRules.Path

/-- The pieces between the slashes. -/
def pieces (path : String) : List String := Text.split '/' path

/-- Whether a piece stays in place. -/
def stays (piece : String) : Bool := piece == "" || piece == "."

/-- The steps of a path that lead somewhere. -/
def steps (path : String) : List String := (pieces path).filter (!stays ·)

/-- The pieces that stay in place behind the last step. -/
def ending (path : String) : List String := ((pieces path).reverse.takeWhile stays).reverse

def isAbsolute (path : String) : Bool := path.toList.head? == some '/'

/-- A path below a directory. -/
def join (directory path : String) : String :=
  if isAbsolute path then path
  else if directory.isEmpty || directory.toList.getLast? == some '/' then directory ++ path
  else directory ++ "/" ++ path

/-- The name of the file that a path leads to, unless it ends in a step upwards. -/
def fileName? (path : String) : Option String := (steps path).getLast?.filter (· != "..")

/-- What follows the last dot of a file name; a dot at its start does not count. -/
def extension? (path : String) : Option String := do
  let parts := Text.split '.' (← fileName? path)
  match parts with
  | [] | [_] | ["", _] => none
  | parts => parts.getLast?

/-- Whether a path names a YAML document; every other document is JSON. -/
def isYaml (path : String) : Bool :=
  match extension? path with
  | some "yaml" | some "yml" => true
  | _ => false

end FieldRules.Path
