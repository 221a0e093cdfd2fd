import LayerLint.Assoc
import LayerLint.Text.Digits

/-!
# Command line options

Options have a long name after two hyphens and may have a letter after one. Arguments are read from
left to right, each option at most once.
-/

namespace LayerLint

/-- What the value of an option may be. -/
inductive ValueKind where
  | anyText
  /-- A text that is not empty. -/
  | path
  | oneOf (choices : List String)
  /-- A count in decimal digits, with a plus in front or without. -/
  | count
  deriving DecidableEq, Repr

/-- What an option does. -/
inductive OptionKind where
  | flag
  | value (kind : ValueKind)
  | showVersion
  | showHelp
  deriving DecidableEq, Repr

/-- An option. -/
structure OptionSpec where
  long : String
  short : Option Char
  kind : OptionKind
  deriving DecidableEq, Repr

/-- The number that a text spells. -/
def parseCount? (text : String) : Option Nat :=
  let digits := match text.toList with
    | '+' :: rest => rest
    | cs => cs
  if digits.isEmpty || !digits.all Char.isDigit then none
  else if Text.decimal digits < countLimit then some (Text.decimal digits)
  else none

/-- Whether a text is a value of a kind. -/
def ValueKind.admits (text : String) : ValueKind → Bool
  | .anyText => true
  | .path => !text.isEmpty
  | .oneOf choices => choices.contains text
  | .count => (parseCount? text).isSome

/-- The options given so far, flags with an empty value. -/
abbrev Given := Assoc String

/-! ## Reading -/

/-- What reading arguments came to. -/
inductive Reading where
  /-- The arguments are at their end. -/
  | finished (given : Given)
  /-- A subcommand stands in front of the rest. -/
  | subcommand (given : Given) (name : String) (rest : List String)
  | version
  | help
  | misuse
  deriving DecidableEq, Repr

/-- What one argument came to. -/
inductive ArgStep where
  | next (given : Given)
  /-- The next argument is the value of an option. -/
  | awaiting (given : Given) (spec : OptionSpec) (kind : ValueKind)
  | version
  | help
  | misuse
  deriving DecidableEq, Repr

/-- Records an option, which may be given once. -/
def giveOnce (given : Given) (spec : OptionSpec) (value : String) : ArgStep :=
  if given.has spec.long then .misuse else .next (given.set spec.long value)

/-- Records the value of an option. -/
def giveValue (given : Given) (spec : OptionSpec) (kind : ValueKind) (value : String) : ArgStep :=
  if kind.admits value then giveOnce given spec value else .misuse

/-- Reads an argument that starts with two hyphens. -/
def readLong (specs : List OptionSpec) (given : Given) (body : List Char) : ArgStep :=
  let name := String.ofList (body.takeWhile (· ≠ '='))
  let value := match body.dropWhile (· ≠ '=') with
    | _ :: value => some (String.ofList value)
    | [] => none
  match specs.find? (·.long == name) with
  | none => .misuse
  | some spec =>
    match spec.kind, value with
    | .flag, none => giveOnce given spec ""
    | .showVersion, none => .version
    | .showHelp, none => .help
    | .value kind, some value => giveValue given spec kind value
    | .value kind, none => .awaiting given spec kind
    | _, some _ => .misuse

/-- Reads an argument that starts with one hyphen: letters of flags, and a letter of an option at
the end, with its value behind it or without. -/
def readShort (specs : List OptionSpec) (given : Given) : List Char → ArgStep
  | [] => .next given
  | letter :: rest =>
    match specs.find? (·.short == some letter) with
    | none => .misuse
    | some spec =>
      match spec.kind, rest with
      | .showVersion, _ => .version
      | .showHelp, _ => .help
      | .value kind, [] => .awaiting given spec kind
      | .value kind, '=' :: value => giveValue given spec kind (String.ofList value)
      | .value kind, value => giveValue given spec kind (String.ofList value)
      | .flag, _ =>
        match giveOnce given spec "" with
        | .next given => readShort specs given rest
        | step => step

/-- Whether an argument can be the value of the option in front of it. -/
def isValueLike (arg : String) : Bool :=
  arg == "-" || arg.toList.head? != some '-'

/-- Reads one argument that is not awaited; a plain word is a subcommand or nothing. -/
def readOption (specs : List OptionSpec) (given : Given) (arg : String) : ArgStep :=
  match arg.toList with
  | '-' :: '-' :: body => readLong specs given body
  | '-' :: letter :: rest => readShort specs given (letter :: rest)
  | _ => .misuse

/-- Reads arguments; an option may await its value. -/
def readArgs (specs : List OptionSpec) (subcommands : List String) :
    Given → Option (OptionSpec × ValueKind) → List String → Reading
  | given, none, [] => .finished given
  | _, some _, [] => .misuse
  | given, some (spec, kind), arg :: rest =>
    if isValueLike arg then
      match giveValue given spec kind arg with
      | .next given => readArgs specs subcommands given none rest
      | _ => .misuse
    else .misuse
  | given, none, arg :: rest =>
    if arg = "--" then if rest.isEmpty then .finished given else .misuse
    else if subcommands.contains arg then .subcommand given arg rest
    else
      match readOption specs given arg with
      | .next given => readArgs specs subcommands given none rest
      | .awaiting given spec kind => readArgs specs subcommands given (some (spec, kind)) rest
      | .version => .version
      | .help => .help
      | .misuse => .misuse

end LayerLint
