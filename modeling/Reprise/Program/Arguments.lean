/-!
The arguments of the command line. Options for the data directory and the configuration may stand
before or after the command; a value after the command wins. Each option may come once on either side.
A value that is a word of its own is looked at when the words after it have been seen, so a wish for
help that comes first is granted whatever the value is.
-/
set_option autoImplicit false

namespace Reprise

namespace Program

inductive Command where
  | resolve (file : String) (parallel json : Bool)
  | delta (file : String)
  | info
  | config
deriving DecidableEq

structure Invocation where
  dataDir : Option String
  config : Option String
  command : Command
deriving DecidableEq

inductive Request where
  | run (invocation : Invocation)
  /-- A text about the program itself. -/
  | tell (text : String)
  | misuse
deriving DecidableEq

structure Options where
  values : List (String × String) := []
  flags : List String := []
  /-- The latest option with its value, while nobody has looked at it yet. -/
  latest : Option (String × String) := none

structure Level where
  valued : List String
  flags : List String
  help : String
  version : Option String

def splitOption (word : List Char) : List Char × Option (List Char) :=
  match word.dropWhile (· != '=') with
  | '=' :: value => (word.takeWhile (· != '='), some value)
  | _ => (word, none)

/-- A value may be a single dash, but not begin with one. -/
def isValue (s : String) : Bool := s.toList == ['-'] || s.toList.head? != some '-'

def give (level : Level) (name : String) (value : String) (o : Options) : Option Options :=
  if level.valued.contains name && !value.isEmpty && (o.values.lookup name).isNone then
    some { o with values := (name, value) :: o.values }
  else none

def settle (level : Level) (o : Options) : Option Options :=
  match o.latest with
  | none => some o
  | some (name, value) => give level name value { o with latest := none }

def tellOrMisuse (text : Option String) : Request := (text.map Request.tell).getD .misuse

/-- Takes options up to the first other word; what is not an option of this level ends it. -/
def scan (level : Level) : List String → Options → Except Request (Options × List String)
  | [], o => .ok (o, [])
  | word :: rest, o =>
    match word.toList, settle level o with
    | '-' :: '-' :: [], _ => .ok (o, word :: rest)
    | '-' :: _ :: _, none => .error .misuse
    | '-' :: '-' :: name, some o =>
      match splitOption name with
      | (name, some value) =>
        match give level (String.ofList name) (String.ofList value) o with
        | some o => scan level rest o
        | none => .error .misuse
      | (name, none) =>
        let name := String.ofList name
        if name = "help" then .error (.tell level.help)
        else if name = "version" then .error (tellOrMisuse level.version)
        else if level.flags.contains name then
          if o.flags.contains name then .error .misuse
          else scan level rest { o with flags := name :: o.flags }
        else
          match rest with
          | value :: rest =>
            if level.valued.contains name && isValue value then
              scan level rest { o with latest := some (name, value) }
            else .error .misuse
          | [] => .error .misuse
    | '-' :: 'h' :: _, some _ => .error (.tell level.help)
    | '-' :: 'V' :: _, some _ => .error (tellOrMisuse level.version)
    | _, _ => .ok (o, word :: rest)

def about : String := "Approximate solution-reuse cache for constraint solving"

def topHelp : String :=
  about ++ "\n\nUsage: grulia [OPTIONS] <COMMAND>\n\nCommands:\n"
    ++ "  resolve  Resolve a JSON array of expressions through the cache\n"
    ++ "  delta    Print the sat-delta of each expression in a JSON array\n"
    ++ "  info     Show engine info (after warm load)\n"
    ++ "  config   Print the effective configuration as TOML\n"
    ++ "  help     Print this message or the help of the given subcommand(s)\n\n"
    ++ "Options:\n"
    ++ "      --data-dir <DATA_DIR>  Data directory for persistent storage\n"
    ++ "      --config <CONFIG>      TOML configuration file\n"
    ++ "  -h, --help                 Print help\n"
    ++ "  -V, --version              Print version\n"

def resolveHelp : String :=
  "Resolve a JSON array of expressions through the cache\n\n"
    ++ "Usage: grulia resolve [OPTIONS] --file <FILE>\n\nOptions:\n"
    ++ "      --data-dir <DATA_DIR>  Data directory for persistent storage\n"
    ++ "      --file <FILE>          Path to JSON file with expressions\n"
    ++ "      --config <CONFIG>      TOML configuration file\n"
    ++ "      --parallel             Resolve the queries in parallel instead of in file order\n"
    ++ "      --json                 Print resolutions and statistics as JSON\n"
    ++ "  -h, --help                 Print help\n"

def deltaHelp : String :=
  "Print the sat-delta of each expression in a JSON array\n\n"
    ++ "Usage: grulia delta [OPTIONS] --file <FILE>\n\nOptions:\n"
    ++ "      --data-dir <DATA_DIR>  Data directory for persistent storage\n"
    ++ "      --file <FILE>          Path to JSON file with expressions\n"
    ++ "      --config <CONFIG>      TOML configuration file\n"
    ++ "  -h, --help                 Print help\n"

def plainHelp (name title : String) : String :=
  title ++ "\n\nUsage: grulia " ++ name ++ " [OPTIONS]\n\nOptions:\n"
    ++ "      --data-dir <DATA_DIR>  Data directory for persistent storage\n"
    ++ "      --config <CONFIG>      TOML configuration file\n"
    ++ "  -h, --help                 Print help\n"

def helpHelp : String :=
  "Print this message or the help of the given subcommand(s)\n\n"
    ++ "Usage: grulia help [COMMAND]...\n\nArguments:\n"
    ++ "  [COMMAND]...  Print help for the subcommand(s)\n"

def topLevel : Level := ⟨["data-dir", "config"], [], topHelp, some "grulia 0.1.0\n"⟩

def level? (command : String) : Option Level :=
  if command = "resolve" then
    some ⟨["data-dir", "config", "file"], ["parallel", "json"], resolveHelp, none⟩
  else if command = "delta" then some ⟨["data-dir", "config", "file"], [], deltaHelp, none⟩
  else if command = "info" then
    some ⟨["data-dir", "config"], [], plainHelp "info" "Show engine info (after warm load)", none⟩
  else if command = "config" then
    some ⟨["data-dir", "config"], [],
      plainHelp "config" "Print the effective configuration as TOML", none⟩
  else none

def command? (name : String) (o : Options) : Option Command :=
  if name = "resolve" then
    (o.values.lookup "file").map fun file =>
      .resolve file (o.flags.contains "parallel") (o.flags.contains "json")
  else if name = "delta" then (o.values.lookup "file").map .delta
  else if name = "info" then some .info
  else if name = "config" then some .config
  else none

def helpFor : List String → Request
  | [] => .tell topHelp
  | [name] =>
    if name = "help" then .tell helpHelp
    else
      match level? name with
      | some level => .tell level.help
      | none => .misuse
  | _ => .misuse

/-- The rest of the arguments after a command. If the options before it are of no use, help is all that
is left to have. -/
def afterCommand (name : String) (level : Level) (outer : Option Options) (args : List String) :
    Request :=
  match scan level args {} with
  | .error request => request
  | .ok (inner, rest) =>
    match outer, settle level inner with
    | some outer, some inner =>
      if rest = [] ∨ rest = ["--"] then
        let value (name : String) := (inner.values.lookup name).or (outer.values.lookup name)
        match command? name inner with
        | some command => .run ⟨value "data-dir", value "config", command⟩
        | none => .misuse
      else .misuse
    | _, _ => .misuse

/-- Reads the arguments from left to right; a wish for help or the version counts where it stands. -/
def parse (args : List String) : Request :=
  match scan topLevel args {} with
  | .error request => request
  | .ok (_, []) => .misuse
  | .ok (outer, name :: rest) =>
    if name = "help" then helpFor rest
    else
      match level? name with
      | some level => afterCommand name level (settle topLevel outer) rest
      | none => .misuse

end Program

end Reprise
