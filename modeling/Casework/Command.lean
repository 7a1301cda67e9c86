import Casework.Compilation
import Casework.Config

/-!
Commands: what the command line asks for, and what it prints.

Files are given as the documents they hold, so commands are plain functions.
-/

namespace Casework

namespace Command

/-! ## Arguments -/

structure Options where
  config : String := ""
  verbose : Bool := false
  dump : Bool := false
deriving DecidableEq, Repr, Inhabited

def truth? (text : String) : Option Bool :=
  if text ∈ ["1", "t", "T", "true", "TRUE", "True"] then some true
  else if text ∈ ["0", "f", "F", "false", "FALSE", "False"] then some false
  else none

def splitOption (text : List Char) : List Char × Option String :=
  match text.dropWhile (· != '=') with
  | _ :: value => (text.takeWhile (· != '='), some (String.ofList value))
  | [] => (text, none)

abbrev Arguments := Options × List String

/-- Letters after a single dash. The letter for the configuration takes the rest as its
value, or the next argument. An equals sign sets a value apart only if the value is not
empty. -/
def readLetters (options : Options) : List Char → List String → Options × List String
  | [], rest => (options, rest)
  | 'v' :: '=' :: first :: value, rest =>
      ({ options with verbose := (truth? (String.ofList (first :: value))).getD true },
        rest)
  | 'v' :: letters, rest => readLetters { options with verbose := true } letters rest
  | 'c' :: '=' :: first :: value, rest =>
      ({ options with config := String.ofList (first :: value) }, rest)
  | ['c'], value :: rest => ({ options with config := value }, rest)
  | 'c' :: value, rest => ({ options with config := String.ofList value }, rest)
  | _ :: letters, rest => readLetters options letters rest

def readWord (options : Options) (text : List Char) (rest : List String) :
    Options × List String :=
  let (name, value?) := splitOption text
  match String.ofList name, value?, rest with
  | "config", some value, rest => ({ options with config := value }, rest)
  | "config", none, value :: rest => ({ options with config := value }, rest)
  | "verbose", value?, rest =>
      ({ options with verbose := (value?.bind truth?).getD true }, rest)
  | "dump", value?, rest =>
      ({ options with dump := (value?.bind truth?).getD true }, rest)
  | _, _, rest => (options, rest)

def readArguments : (fuel : Nat) → Options → List String → Arguments
  | 0, options, _ => (options, [])
  | _ + 1, options, [] => (options, [])
  | fuel + 1, options, argument :: rest =>
      match argument.toList with
      | ['-', '-'] => (options, rest)
      | '-' :: '-' :: text =>
          let (options, rest) := readWord options text rest
          readArguments fuel options rest
      | '-' :: first :: letters =>
          let (options, rest) := readLetters options (first :: letters) rest
          readArguments fuel options rest
      | _ =>
          let (options, others) := readArguments fuel options rest
          (options, argument :: others)

/-- Finds the name of the command: the first argument that is neither an option nor the
value of one. Only an option that stands alone is known to take the next argument here,
and it is not asked to take the last one. The other arguments keep their order. -/
def splitName : List String → Option (String × List String)
  | [] => none
  | "--" :: _ => none
  | argument :: rest =>
      if argument = "-c" || argument = "--config" then
        match rest with
        | value :: next :: rest =>
            (splitName (next :: rest)).map fun (name, others) =>
              (name, argument :: value :: others)
        | _ => none
      else if argument.isEmpty || argument.startsWith "-" then
        (splitName rest).map fun (name, others) => (name, argument :: others)
      else some (argument, rest)

/-! ## Printing -/

def dumped : Pattern → String
  | .wildcard => "&casecomp.Wildcard\x7b\x7d"
  | .emptyList => "&casecomp.EmptyList\x7b\x7d"
  | .bind binding => "&casecomp.Bind\x7b" ++ binding.name ++ "\x7d"
  | .literal value _ => "&casecomp.Literal\x7b" ++ value.written ++ "\x7d"
  | .cons _ _ => "&casecomp.Cons"
  | .fixedList _ => "&casecomp.FixedList"
  | .record _ => "&casecomp.Record"
  | .variant tag _ => "&casecomp.VariantTag\x7b" ++ tag ++ "\x7d"

def dumpLines : (number : Nat) → List Pattern → List String
  | _, [] => []
  | number, pattern :: rest =>
      ("choice " ++ toString number ++ ": " ++ dumped pattern) ::
        dumpLines (number + 1) rest

def summary (checked : CheckedCase) : List String :=
  (checked.name ++ ": " ++ checked.type) :: checked.sealed.map ("  sealed " ++ ·)

def dumpOf (options : Options) (checked : CheckedCase) : List String :=
  if options.dump then dumpLines 0 checked.arms.patterns else []

/-! ## Commands -/

abbrev Files := String → Except Unreadable Document

structure Outcome where
  lines : List String := []
  failure? : Option Failure := none
deriving Inhabited

def Outcome.ofExcept : Except Failure (List String) → Outcome
  | .ok lines => { lines := lines }
  | .error failure => { failure? := some failure }

/-- The document a file holds, read for the given purpose. -/
def load (files : Files) (purpose path : String) : Except Failure Document :=
  (files path).mapError fun reason =>
    .within ("reading " ++ purpose ++ " " ++ path) (.setup (.unreadable path reason))

def about {α : Type} (purpose path : String) (result : Except Failure α) :
    Except Failure α :=
  result.mapError (.within (purpose ++ " " ++ path))

def loadFixture (files : Files) (path : String) : Except Failure Fixture := do
  let document ← load files "fixture" path
  let fixture ← about "fixture" path (Fixture.ofDocument document)
  return { fixture with path := path }

def configPath (envConfig : String) (options : Options) : String :=
  if options.config.isEmpty then envConfig else options.config

def loadConfig (files : Files) (envConfig : String) (options : Options) :
    Except Failure Config := do
  let path := configPath envConfig options
  if path.isEmpty then return .standard
  let document ← load files "config" path
  about "config" path (Config.ofDocument document)

/-- Compiles one fixture and prints its code. -/
def compile (files : Files) (config : Config) (options : Options) (path : String) :
    Except Failure (List String) := do
  let fixture ← loadFixture files path
  let compiled ← fixture.compile
  let heading := match config.listing with
    | .code => []
    | .full => summary compiled.checked
  return dumpOf options compiled.checked ++ heading ++
    config.target.lines compiled.listing.code

/-- Checks fixtures and prints their types. All are checked even if some fail. -/
def check (files : Files) (options : Options) (paths : List String) : Outcome :=
  match paths.mapM (loadFixture files) with
  | .error failure => { failure? := some failure }
  | .ok fixtures =>
      let (checked, failures) := Fixture.checkAll fixtures
      { lines := checked.flatMap fun result => dumpOf options result ++ summary result
        failure? := if failures.isEmpty then none else some (.several failures) }

def runNamed (files : Files) (envConfig : String) (options : Options) (name : String)
    (arguments : List String) : Outcome :=
  let configured (command : Config → Outcome) : Outcome :=
    match loadConfig files envConfig options with
    | .ok config => command config
    | .error failure => { failure? := some failure }
  match name with
  | "compile" =>
      match arguments with
      | [path] => configured fun config => .ofExcept (compile files config options path)
      | arguments => { failure? := some (.setup (.exactArguments 1 arguments.length)) }
  | "check" =>
      if arguments.isEmpty then { failure? := some (.setup (.leastArguments 1 0)) }
      else configured fun _ => check files options arguments
  | "version" => configured fun _ => { lines := ["casec version dev"] }
  | name =>
      { failure? := some (.setup (.stated ("unknown command " ++ Text.quote name ++
          " for \"casec\""))) }

def run (files : Files) (envConfig : String) (arguments : List String) : Outcome :=
  match splitName arguments with
  | none => {}
  | some (name, rest) =>
      let (options, others) := readArguments (rest.length + 1) {} rest
      runNamed files envConfig options name others

def paths (envConfig : String) (arguments : List String) : List String :=
  match splitName arguments with
  | none => []
  | some (_, rest) =>
      let (options, others) := readArguments (rest.length + 1) {} rest
      configPath envConfig options :: others

end Command

end Casework
