/-
CipherBoard.CommandLine.Arguments — what the arguments of the program ask for.

A command line has two levels: the options of the program up to the name of a command, and the
options and words of the command behind it. Each level has a `Vocabulary`, and `Vocabulary.read`
reads a level against it. The first argument that does not fit refuses the whole line; a request
for help or for the version ends it where it stands (`Stop`). `parse` puts the two levels together.
-/
namespace CipherBoard.CommandLine

/-! ## Requests -/

/-- What the program can be asked to do. -/
inductive Command where
  | check (tileset : Option String) (files : List String)
  | scan (tileset : Option String) (directory : Option String)
  | run (tileset : Option String) (file input : String) (trace : Bool)
  | keywords (tileset : Option String) (file : String) (json : Bool)
  deriving DecidableEq, Repr

/-- The file of settings that is read unless another is named. -/
def defaultConfig : String := "circuit.toml"

/-- A command, and the file of its settings. -/
structure Invocation where
  config : String
  command : Command
  deriving DecidableEq, Repr

/-- Why a line of arguments is refused. -/
inductive UsageError where
  | unknownCommand (word : String)
  | unknownOption (argument : String)
  | missingValue (option : String)
  | unexpectedValue (flag : String)
  | repeated (option : String)
  | emptyPath
  | unexpectedWord (word : String)
  | missingWord
  | missingCommand
  deriving DecidableEq, Repr

/-- The error in words. -/
def UsageError.message : UsageError → String
  | unknownCommand word => s!"there is no command '{word}'"
  | unknownOption argument => s!"there is no option '{argument}'"
  | missingValue option => s!"'--{option}' needs a value"
  | unexpectedValue flag => s!"'--{flag}' takes no value"
  | repeated option => s!"'--{option}' is given more than once"
  | emptyPath => "a path is empty"
  | unexpectedWord word => s!"there is no use for '{word}'"
  | missingWord => "a file or an input is missing"
  | missingCommand => "a command is missing"

/-- What ends a line of arguments before a command is known in full. -/
inductive Stop where
  | help
  | version
  | refused (e : UsageError)
  deriving DecidableEq, Repr

/-! ## One level -/

/-- What a word may be. -/
inductive WordKind where
  /-- A path, which is not empty. -/
  | path
  /-- Any text. -/
  | anything
  deriving DecidableEq, Repr

/-- What a level understands: options that take a value, flags, the letters of flags, and words.
The last kind of word stands for any number of words if `many` is set. Values are paths. -/
structure Vocabulary where
  options : List String
  flags : List String
  letters : List (Char × String)
  words : List WordKind := []
  many : Bool := false
  deriving DecidableEq, Repr

/-- What has been read of a level. -/
structure Reading where
  values : List (String × String) := []
  flags : List String := []
  words : List String := []
  deriving DecidableEq, Repr

namespace Reading

/-- Gives an option its value. -/
def set (r : Reading) (option value : String) : Except Stop Reading :=
  if (r.values.lookup option).isSome then .error (.refused (.repeated option))
  else if value.isEmpty then .error (.refused .emptyPath)
  else .ok { r with values := (option, value) :: r.values }

/-- Sets a flag. Two of them are answered at once. -/
def raise (r : Reading) (flag : String) : Except Stop Reading :=
  if flag = "help" then .error .help
  else if flag = "version" then .error .version
  else if r.flags.contains flag then .error (.refused (.repeated flag))
  else .ok { r with flags := flag :: r.flags }

end Reading

/-- What an argument looks like. -/
inductive Shape where
  /-- Two hyphens alone: every argument behind them is a word. -/
  | divider
  /-- A name behind two hyphens, perhaps with a value behind an equals sign. -/
  | named (name : String) (value : Option String)
  /-- Letters behind one hyphen. -/
  | letters (letters : List Char)
  | word
  deriving DecidableEq, Repr

/-- The shape of an argument. A hyphen alone is a word. -/
def shapeOf (argument : String) : Shape :=
  match argument.toList with
  | ['-', '-'] => .divider
  | '-' :: '-' :: rest =>
    let name := rest.takeWhile (· != '=')
    .named (String.ofList name)
      (match rest.drop name.length with
        | [] => none
        | _ :: value => some (String.ofList value))
  | '-' :: c :: rest => .letters (c :: rest)
  | _ => .word

namespace Vocabulary

/-- What the word at a place may be, if there may be one. -/
def kindAt? (v : Vocabulary) (place : Nat) : Option WordKind :=
  match v.words[place]? with
  | some kind => some kind
  | none => if v.many then v.words.getLast? else none

/-- Takes a word. -/
def take (v : Vocabulary) (r : Reading) (word : String) : Except Stop Reading :=
  match v.kindAt? r.words.length with
  | none => .error (.refused (.unexpectedWord word))
  | some kind =>
    if kind = .path ∧ word.isEmpty then .error (.refused .emptyPath)
    else .ok { r with words := r.words ++ [word] }

/-- Takes words only. -/
def takeAll (v : Vocabulary) (r : Reading) (words : List String) : Except Stop Reading :=
  words.foldlM v.take r

/-- Sets the flags of letters, one after the other. -/
def raiseLetters (v : Vocabulary) (r : Reading) (letters : List Char) : Except Stop Reading :=
  letters.foldlM (fun r c =>
    match v.letters.lookup c with
    | some flag => r.raise flag
    | none => .error (.refused (.unknownOption ("-" ++ String.singleton c)))) r

/-- Reads a level up to its end, or to the first word if `leading` is set: that word and what is
behind it are the second part of the result. -/
def read (v : Vocabulary) (leading : Bool) (r : Reading) :
    List String → Except Stop (Reading × List String)
  | [] => .ok (r, [])
  | argument :: rest =>
    match shapeOf argument with
    | .divider => (v.takeAll r rest).map fun r => (r, [])
    | .letters letters =>
      match v.raiseLetters r letters with
      | .error stop => .error stop
      | .ok r => v.read leading r rest
    | .word =>
      if leading then .ok (r, argument :: rest)
      else
        match v.take r argument with
        | .error stop => .error stop
        | .ok r => v.read leading r rest
    | .named name value =>
      if v.flags.contains name then
        if value.isSome then .error (.refused (.unexpectedValue name))
        else
          match r.raise name with
          | .error stop => .error stop
          | .ok r => v.read leading r rest
      else if v.options.contains name then
        match value, rest with
        | some value, rest =>
          match r.set name value with
          | .error stop => .error stop
          | .ok r => v.read leading r rest
        | none, [] => .error (.refused (.missingValue name))
        | none, value :: rest =>
          if shapeOf value = .word then
            match r.set name value with
            | .error stop => .error stop
            | .ok r => v.read leading r rest
          else .error (.refused (.missingValue name))
      else .error (.refused (.unknownOption argument))

end Vocabulary

/-! ## The levels of this program -/

/-- The options before a command. -/
def programVocabulary : Vocabulary where
  options := ["config"]
  flags := ["verbose", "help", "version"]
  letters := [('v', "verbose"), ('h', "help"), ('V', "version")]

/-- The vocabulary of a command: the settings file, the tileset and the wish for more log lines,
which this program does not write, belong to all. -/
def commandVocabulary (flags : List String) (words : List WordKind) (many : Bool) : Vocabulary where
  options := ["config", "tileset"]
  flags := ["verbose", "help"] ++ flags
  letters := [('v', "verbose"), ('h', "help")]
  words := words
  many := many

/-- The command that was read, if all its words are there. -/
abbrev CommandReader := Reading → Option Command

/-- The commands by name: what each understands, and what it makes of that. -/
def commandNamed? (name : String) : Option (Vocabulary × CommandReader) :=
  match name with
  | "check" =>
    some (commandVocabulary [] [.path] true, fun r =>
      if r.words.isEmpty then none else some (.check (r.values.lookup "tileset") r.words))
  | "scan" =>
    some (commandVocabulary [] [.path] false, fun r =>
      some (.scan (r.values.lookup "tileset") r.words.head?))
  | "run" =>
    some (commandVocabulary ["trace"] [.path, .anything] false, fun r =>
      match r.words with
      | [file, input] =>
        some (.run (r.values.lookup "tileset") file input (r.flags.contains "trace"))
      | _ => none)
  | "keywords" =>
    some (commandVocabulary ["json"] [.path] false, fun r =>
      match r.words with
      | [file] => some (.keywords (r.values.lookup "tileset") file (r.flags.contains "json"))
      | _ => none)
  | _ => none

/-- The word that asks for help in the place of a command. -/
def helpWord : String := "help"

/-- What a request for help comes to, given what it is about: one command, or everything. -/
def parseHelp : List String → Stop
  | [] => .help
  | [name] =>
    if name = helpWord ∨ (commandNamed? name).isSome then .help
    else .refused (.unknownCommand name)
  | _ :: word :: _ => .refused (.unexpectedWord word)

/-- Reads a command and what is behind its name. The settings file that is named behind the
command counts before one that is named in front of it. -/
def parseCommand (config : Option String) : List String → Except Stop Invocation
  | [] => .error (.refused .missingCommand)
  | name :: rest =>
    if name = helpWord then .error (parseHelp rest)
    else
      match commandNamed? name with
      | none => .error (.refused (.unknownCommand name))
      | some (vocabulary, command?) =>
        match vocabulary.read false {} rest with
        | .error stop => .error stop
        | .ok (r, _) =>
          match command? r with
          | none => .error (.refused .missingWord)
          | some command =>
            .ok { config := ((r.values.lookup "config").or config).getD defaultConfig, command }

/-- Reads the arguments of the program. -/
def parse (arguments : List String) : Except Stop Invocation :=
  match programVocabulary.read true {} arguments with
  | .error stop => .error stop
  | .ok (r, rest) => parseCommand (r.values.lookup "config") rest

end CipherBoard.CommandLine
