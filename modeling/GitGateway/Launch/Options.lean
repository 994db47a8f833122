import GitGateway.Text.Similar

/-!
# Options

What the program is told when it is started: where its configuration lies and how it writes its log.
An option is given once, with its value behind it or joined to it; help is given at once.
-/

namespace GitGateway.Launch

/-- How the log is written. -/
inductive LogFormat where
  | json
  | pretty
deriving DecidableEq, Repr

namespace LogFormat

/-- All formats with their names. -/
def all : List (String × LogFormat) := [("json", .json), ("pretty", .pretty)]

end LogFormat

/-- What the program is told. -/
structure Options where
  config : String := "/etc/forgegate/config.yaml"
  logFormat : LogFormat := .json
deriving DecidableEq, Repr

/-- An option. -/
inductive Flag where
  | config
  | logFormat
  | help
deriving DecidableEq, Repr

namespace Flag

/-- The long name of an option. -/
def name : Flag → String
  | .config => "config"
  | .logFormat => "log-format"
  | .help => "help"

/-- The letter of an option, if it has one. -/
def letter : Flag → Option Char
  | .config => some 'c'
  | .logFormat => none
  | .help => some 'h'

/-- How an option is shown. -/
def shown : Flag → String
  | .config => "--config <CONFIG>"
  | .logFormat => "--log-format <LOG_FORMAT>"
  | .help => "--help"

/-- All options. -/
def all : List Flag := [.config, .logFormat, .help]

/-- The names an option's value may have, if only some are allowed. -/
def values : Flag → List String
  | .logFormat => LogFormat.all.map Prod.fst
  | _ => []

end Flag

/-- What the words on the command line amount to. -/
inductive Start where
  | run (o : Options)
  | help
  /-- The words are wrong; the text says how. -/
  | refuse (text : String)
deriving DecidableEq, Repr

/-! ## Texts -/

/-- The help text. -/
def helpText : String := "\n".intercalate [
  "SSH gateway for git repositories",
  "",
  "Usage: forgegate [OPTIONS]",
  "",
  "Options:",
  "  -c, --config <CONFIG>          Path to the YAML configuration file [default: /etc/forgegate/config.yaml]",
  "      --log-format <LOG_FORMAT>  Log output format [default: json] [possible values: json, pretty]",
  "  -h, --help                     Print help",
  ""]

/-- How the program is called, given the options that were used. -/
def usage (used : List Flag) : String :=
  "Usage: forgegate " ++
    if used.isEmpty then "[OPTIONS]" else String.intercalate " " (used.map Flag.shown)

/-- A refusal: what is wrong and further paragraphs. -/
def refusal (paragraphs : List String) : String :=
  "error: " ++ String.intercalate "\n\n" (paragraphs ++ ["For more information, try '--help'."]) ++ "\n"

/-- The paragraph about something that is similar. -/
def tip (kind : String) : Option String → List String
  | some s => ["  tip: a similar " ++ kind ++ " exists: '" ++ s ++ "'"]
  | none => []

/-- The refusal of a word that is not expected. -/
def unexpected (word : String) (similar : Option String) (used : List Flag) : String :=
  refusal (("unexpected argument '" ++ word ++ "' found") :: tip "argument" similar ++ [usage used])

/-- The names that a value may have. -/
def valueList (f : Flag) : String :=
  if f.values.isEmpty then ""
  else "\n  [possible values: " ++ String.intercalate ", " f.values ++ "]"

/-- The refusal of an option without a value. -/
def valueMissing (f : Flag) : String :=
  refusal ["a value is required for '" ++ f.shown ++ "' but none was supplied" ++ valueList f]

/-- The refusal of a value. -/
def valueWrong (f : Flag) (value : String) : String :=
  refusal (("invalid value '" ++ value ++ "' for '" ++ f.shown ++ "'" ++ valueList f) ::
    tip "value" (Text.Similar.best? value f.values))

/-- The refusal of an option that was given before. -/
def repeated (f : Flag) : String :=
  refusal ["the argument '" ++ f.shown ++ "' cannot be used multiple times", usage []]

/-- The refusal of a value for an option that takes none. -/
def valueTooMany (f : Flag) (value : String) (used : List Flag) : String :=
  refusal ["unexpected value '" ++ value ++ "' for '" ++ f.shown ++
    "' found; no more were expected", usage used]

/-! ## Reading -/

/-- What was read so far. -/
structure Reading where
  options : Options := {}
  /-- The options given so far, in order. -/
  used : List Flag := []
  /-- An option that is to be finished, with its value if that was read. -/
  pending : Option (Flag × Option String) := none
  /-- Whether words behind this point are no options. -/
  isPlain : Bool := false
deriving DecidableEq, Repr

/-- The end of the reading, before its time. -/
abbrev Stop := Start

namespace Reading

/-- Sets an option's value. -/
def set (r : Reading) (f : Flag) (value : String) : Except Stop Reading :=
  match f with
  | .config => .ok { r with options := { r.options with config := value } }
  | .logFormat =>
    match LogFormat.all.lookup value with
    | some format => .ok { r with options := { r.options with logFormat := format } }
    | none => .error (.refuse (if value == "" then valueMissing f else valueWrong f value))
  | .help => .error .help

/-- Gives an option its value. -/
def give (r : Reading) (f : Flag) (value : String) : Except Stop Reading :=
  if r.used.contains f then .error (.refuse (repeated f))
  else { r with used := r.used ++ [f] }.set f value

/-- Finishes the option that is open. -/
def finish (r : Reading) : Except Stop Reading :=
  let closed := { r with pending := none }
  match r.pending with
  | none => .ok r
  | some (f, none) => .error (.refuse (valueMissing f))
  | some (f, some value) => closed.give f value

/-- The options that count as used when a word is refused: also the one that was open with its
value. -/
def usedNow (r : Reading) : List Flag :=
  match r.pending with
  | some (f, some _) => if r.used.contains f then r.used else r.used ++ [f]
  | _ => r.used

/-- Reads an option, perhaps with a value joined to it. -/
def option (r : Reading) (f : Flag) (joined : Option String) : Except Stop Reading :=
  match f, joined with
  | .help, some value => .error (.refuse (valueTooMany f value r.usedNow))
  | .help, none => do (← r.finish).set .help ""
  | f, some value => do (← r.finish).give f value
  | f, none => do return { (← r.finish) with pending := some (f, none) }

/-- Splits a text at its first equals sign. -/
def splitEquals (cs : List Char) : List Char × Option String :=
  match cs.dropWhile (· != '=') with
  | [] => (cs, none)
  | _ :: value => (cs.takeWhile (· != '='), some (String.ofList value))

/-- Reads a word that begins with two hyphens. -/
def long (r : Reading) (cs : List Char) : Except Stop Reading :=
  let (nameChars, joined) := splitEquals cs
  let name := String.ofList nameChars
  match Flag.all.find? fun f => f.name == name with
  | some f => r.option f joined
  | none =>
    let similar := Text.Similar.best? name (Flag.all.map Flag.name)
    let meant := (Flag.all.filter fun f => similar == some f.name && !r.usedNow.contains f)
    .error (.refuse (unexpected ("--" ++ name) (similar.map ("--" ++ ·)) (r.usedNow ++ meant)))

/-- Reads a word of letters behind one hyphen. -/
def letters (r : Reading) : List Char → Except Stop Reading
  | [] => .ok r
  | c :: rest =>
    match Flag.all.find? fun f => f.letter == some c with
    | none => .error (.refuse (unexpected ("-" ++ c.toString) none []))
    | some .help => r.option .help none
    | some f =>
      match rest with
      | [] => r.option f none
      | '=' :: value => r.option f (some (String.ofList value))
      | value => r.option f (some (String.ofList value))

/-- Reads a word that is no option. -/
def plain (r : Reading) (w : String) : Except Stop Reading :=
  match r.pending with
  | some (f, none) =>
    if r.isPlain then .error (.refuse (unexpected w none []))
    else .ok { r with pending := some (f, some w) }
  | _ => .error (.refuse (unexpected w none []))

/-- Reads a word. -/
def word (r : Reading) (w : String) : Except Stop Reading :=
  if r.isPlain then r.plain w
  else
    match w.toList with
    | ['-', '-'] => .ok { r with isPlain := true }
    | '-' :: '-' :: rest => r.long rest
    | '-' :: c :: rest => r.letters (c :: rest)
    | _ => r.plain w

end Reading

/-- What the words on the command line amount to. -/
def Start.ofWords (words : List String) : Start :=
  match words.foldlM Reading.word ({} : Reading) >>= Reading.finish with
  | .ok r => .run r.options
  | .error s => s

end GitGateway.Launch
