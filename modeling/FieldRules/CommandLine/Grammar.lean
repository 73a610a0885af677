/-!
# Command line grammars

What may stand on a command line: options by a letter or a word, positional arguments, and commands inside
commands. `CommandSpec.parse` reads the words of a command line from left to right and gives, for every command
that was named, the arguments that belong to it.
-/

namespace FieldRules

/-- How often an argument may be given and what it takes. -/
inductive ArgKind where
  /-- Given any number of times, without a value. -/
  | count
  /-- Given once, without a value. -/
  | flag
  /-- Given once, with a value. -/
  | one
  /-- Given any number of times, with values. -/
  | many
  | help
  | version
  deriving DecidableEq

/-- An option, or a positional argument when it has neither a letter nor a word. -/
structure ArgSpec where
  id : String
  short : Option Char := none
  long : Option String := none
  kind : ArgKind := .one
  required : Bool := false
  /-- The values that may be given. -/
  accepts : String → Bool := fun _ => true
  /-- A variable of the environment that stands in when the option is not given. -/
  variableName : Option String := none

/-- A command. Where there are commands inside it, one of them must follow. -/
structure CommandSpec where
  name : String
  options : List ArgSpec
  positionals : List ArgSpec := []
  /-- Pairs of arguments that exclude each other. -/
  conflicts : List (String × String) := []
  commands : List CommandSpec := []

/-- Why a command line is not carried out. -/
inductive Refusal where
  | unknownArgument
  | unknownCommand
  | badValue
  | conflict
  | unneededValue
  | missingArgument
  | missingCommand
  /-- Nothing at all was given where something must be. -/
  | nothingGiven
  | helpWanted
  /-- The version was asked for; the commands lead to the one that was asked. -/
  | versionWanted (path : List String)
  deriving DecidableEq

/-- Asking for help or for the version is no failure. -/
def Refusal.exitCode : Refusal → Nat
  | helpWanted | versionWanted _ => 0
  | _ => 2

/-- Where the values of an argument come from. -/
inductive ArgSource where
  | environment
  | commandLine
  deriving DecidableEq

/-- An argument that was given. -/
structure GivenArg where
  id : String
  source : ArgSource
  occurrences : Nat
  values : List String
  deriving DecidableEq

/-- What was read of the arguments of one command. -/
structure ArgState where
  given : List GivenArg := []
  /-- An argument whose values are still coming in. -/
  pending : Option (ArgSpec × List String) := none
  /-- Whether the next word must be the value of the pending option, unless it is an option itself. -/
  awaiting : Bool := false
  /-- Whether options are over. -/
  trailing : Bool := false
  /-- How many positional arguments are done. -/
  position : Nat := 0

/-- The arguments given to one command. -/
structure CommandArgs where
  name : String
  given : List GivenArg
  deriving DecidableEq

namespace GivenArg

def find? (id : String) (given : List GivenArg) : Option GivenArg := given.find? (·.id = id)

end GivenArg

namespace ArgState

def has (s : ArgState) (id : String) : Bool := (GivenArg.find? id s.given).isSome

def occurrences (s : ArgState) (id : String) : Nat := ((GivenArg.find? id s.given).map (·.occurrences)).getD 0

def values (s : ArgState) (id : String) : List String := ((GivenArg.find? id s.given).map (·.values)).getD []

/-- Notes an argument in place of what was noted of it before. -/
def note (s : ArgState) (source : ArgSource) (id : String) (occurrences : Nat) (values : List String) : ArgState :=
  { s with given := s.given.filter (·.id ≠ id) ++ [⟨id, source, occurrences, values⟩] }

/-- Takes in an argument with its values, nothing being pending. -/
def take (path : List String) (s : ArgState) (source : ArgSource) (a : ArgSpec) (values : List String) :
    Except Refusal ArgState :=
  match a.kind with
  | .help => .error .helpWanted
  | .version => .error (.versionWanted path)
  | .count => .ok (s.note source a.id (min 255 (s.occurrences a.id + 1)) [])
  | .flag => if s.has a.id then .error .conflict else .ok (s.note source a.id 1 [])
  | .one =>
    if values.isEmpty then .error .badValue
    else if s.has a.id then .error .conflict
    else if values.all a.accepts then .ok (s.note source a.id 1 values)
    else .error .badValue
  | .many =>
    if values.isEmpty || !values.all a.accepts then .error .badValue
    else .ok (s.note source a.id (s.occurrences a.id + 1) (s.values a.id ++ values))

/-- Takes in what is pending. -/
def settle (path : List String) (s : ArgState) : Except Refusal ArgState :=
  match s.pending with
  | none => .ok s
  | some (a, values) => { s with pending := none }.take path .commandLine a values

/-- Takes in an argument after what is pending. -/
def react (path : List String) (s : ArgState) (a : ArgSpec) (values : List String) : Except Refusal ArgState := do
  let s ← s.settle path
  let s ← s.take path .commandLine a values
  return { s with awaiting := false }

/-- Takes in an option whose value, if it has none yet, is expected next. -/
def takeOption (path : List String) (s : ArgState) (a : ArgSpec) : Option String → Except Refusal ArgState
  | some value => s.react path a [value]
  | none => do
    let s ← s.settle path
    return { s with pending := some (a, []), awaiting := true }

end ArgState

namespace ArgSpec

def takesValue (a : ArgSpec) : Bool :=
  match a.kind with
  | .one | .many => true
  | _ => false

end ArgSpec

namespace CommandSpec

def command? (spec : CommandSpec) (name : String) : Option CommandSpec := spec.commands.find? (·.name = name)

/-- Whether a word names a command; `help` does where there are commands. -/
def isCommand (spec : CommandSpec) (word : String) : Bool :=
  (spec.command? word).isSome || (word == "help" && !spec.commands.isEmpty)

def byLong? (spec : CommandSpec) (word : String) : Option ArgSpec := spec.options.find? (·.long = some word)

def byShort? (spec : CommandSpec) (letter : Char) : Option ArgSpec := spec.options.find? (·.short = some letter)

/-- Reads an option by its word, with a value behind an equals sign. -/
def readLong (spec : CommandSpec) (path : List String) (s : ArgState) (cs : List Char) : Except Refusal ArgState :=
  let word := String.ofList (cs.takeWhile (· != '='))
  let value? := match cs.dropWhile (· != '=') with
    | [] => none
    | _ :: value => some (String.ofList value)
  match spec.byLong? word with
  | none => .error .unknownArgument
  | some a =>
    if a.takesValue then s.takeOption path a value?
    else if value?.isSome then .error .unneededValue
    else s.react path a []

/-- Reads options by their letters; what follows the letter of one that takes a value is the value. -/
def readShort (spec : CommandSpec) (path : List String) (s : ArgState) : List Char → Except Refusal ArgState
  | [] => .ok s
  | letter :: rest =>
    match spec.byShort? letter with
    | none => .error .unknownArgument
    | some a =>
      if a.takesValue then
        s.takeOption path a (match rest with
          | [] => none
          | '=' :: value => some (String.ofList value)
          | value => some (String.ofList value))
      else do
        let s ← s.react path a []
        readShort spec path s rest

/-- Why a word has no place among the positional arguments: where a command is wanted it names none. -/
def refuseWord (spec : CommandSpec) (s : ArgState) (word : String) : Refusal :=
  if s.trailing && spec.isCommand word then .unknownArgument
  else if !spec.commands.isEmpty && spec.positionals.isEmpty then .unknownCommand
  else .unknownArgument

/-- Reads a positional argument. -/
def readPositional (spec : CommandSpec) (path : List String) (s : ArgState) (word : String) :
    Except Refusal ArgState :=
  match spec.positionals[s.position]? with
  | none => .error (spec.refuseWord s word)
  | some a => do
    let many := a.kind == .many
    let before := match s.pending with
      | some (b, values) => if many && b.id = a.id then some values else none
      | none => none
    match before with
    | some values => return { s with pending := some (a, values ++ [word]), awaiting := false }
    | none =>
      let s ← s.settle path
      return { s with
        pending := some (a, [word])
        awaiting := false
        position := if many then s.position else s.position + 1 }

/-- Follows the words behind `help`, each of which must name a command. -/
def readHelp (spec : CommandSpec) : List String → Refusal
  | [] => .helpWanted
  | word :: rest =>
    match spec.command? word with
    | some inner => readHelp inner rest
    | none => if spec.isCommand word && rest.isEmpty then .helpWanted else .unknownCommand

/-- Reads words up to the name of a command inside, which is returned with the words behind it. -/
def readWords (spec : CommandSpec) (path : List String) (s : ArgState) :
    List String → Except Refusal (ArgState × Option (CommandSpec × List String))
  | [] => .ok (s, none)
  | word :: rest =>
    let goOn (s : Except Refusal ArgState) := do readWords spec path (← s) rest
    if s.trailing then goOn (spec.readPositional path s word)
    else
      match (if s.awaiting then none else spec.command? word) with
      | some inner => .ok (s, some (inner, rest))
      | none =>
        if !s.awaiting && spec.isCommand word then .error (spec.readHelp rest)
        else
          match word.toList with
          | ['-', '-'] => goOn (.ok { s with trailing := true })
          | '-' :: '-' :: cs => goOn (spec.readLong path s cs)
          | '-' :: c :: cs => goOn (spec.readShort path s (c :: cs))
          | _ =>
            match s.awaiting, s.pending with
            | true, some (a, values) =>
              goOn (.ok { s with pending := some (a, values ++ [word]), awaiting := false })
            | _, _ => goOn (spec.readPositional path s word)

/-- Lets variables of the environment stand in for options that were not given. -/
def readEnvironment (path : List String) (environment : String → Option String) (s : ArgState) :
    List ArgSpec → Except Refusal ArgState
  | [] => .ok s
  | a :: rest => do
    let s ← match a.variableName.bind environment with
      | some value => if s.has a.id then .ok s else s.take path .environment a [value]
      | none => .ok s
    readEnvironment path environment s rest

/-- Checks that a command is named where one must be, that nothing excludes something else, and that everything
required is there. -/
def check (spec : CommandSpec) (s : ArgState) (hasCommand : Bool) : Except Refusal Unit :=
  if !hasCommand && !spec.commands.isEmpty then
    .error (if s.given.isEmpty then .nothingGiven else .missingCommand)
  else if spec.conflicts.any fun (a, b) => s.has a && s.has b then .error .conflict
  else if (spec.options ++ spec.positionals).all fun a => !a.required || s.has a.id then .ok ()
  else .error .missingArgument

/-- Reads a command line: the arguments of every command that was named, from the outermost in. Each command
inside another takes a word, so the number of words bounds the depth. -/
def parseWith (environment : String → Option String) :
    Nat → CommandSpec → List String → List String → Except Refusal (List CommandArgs)
  | 0, _, _, _ => .error .missingCommand
  | fuel + 1, spec, path, words => do
    let path := path ++ [spec.name]
    let (s, inner?) ← spec.readWords path {} words
    let inner ← match inner? with
      | some (inner, rest) => parseWith environment fuel inner path rest
      | none => pure []
    let s ← s.settle path
    let s ← readEnvironment path environment s spec.options
    spec.check s inner?.isSome
    return ⟨spec.name, s.given⟩ :: inner

def parse (spec : CommandSpec) (environment : String → Option String) (words : List String) :
    Except Refusal (List CommandArgs) :=
  parseWith environment (words.length + 1) spec [] words

end CommandSpec

/-- What was given of an argument that all commands share: of two commands the inner one counts, unless only the
outer one was given the argument on the command line. -/
def CommandArgs.shared? (id : String) : List CommandArgs → Option GivenArg
  | [] => none
  | outer :: inner =>
    match GivenArg.find? id outer.given, shared? id inner with
    | some o, some i => if o.source = .commandLine && i.source = .environment then some o else some i
    | some o, none => some o
    | none, i => i

end FieldRules
