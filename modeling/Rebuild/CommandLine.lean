import Rebuild.Text.Lowercase

/-!
# The command line

Arguments are read from left to right.

* A *setting* takes a value: attached with an equals sign, or as the next argument unless that
  starts with a dash and has more to it.  A value that stands alone is accepted only when the next
  option comes or the arguments end, so an unknown argument right after it is reported first.
* A *switch* takes none.
* Short options are letters after a single dash.
* Two dashes alone end the options.  There are no other arguments, so nothing may follow.

Settings and switches may be given once.

The level of the log comes from the command line, else from the environment, else it is `info`.
-/

namespace Rebuild

/-! ### Log levels -/

/-- How much is logged. -/
inductive LogLevel where
  | error
  | warn
  | info
  | debug
  | trace
  deriving Repr, DecidableEq, Inhabited

namespace LogLevel

/-- The names of levels on the command line. -/
def names : List (String × LogLevel) :=
  [("error", .error), ("warn", .warn), ("info", .info), ("debug", .debug), ("trace", .trace)]

/-- The names of levels in the environment. -/
def environmentNames : List (String × LogLevel) :=
  names ++ [("warning", .warn)]

/-- The level that the environment asks for, blanks around it and case aside. -/
def ofEnvironment? (value : String) : Option LogLevel :=
  environmentNames.lookup (String.ofList (Text.lower (Text.trim value.toList)))

/-- The level in force.  A value of the environment that names no level is ignored. -/
def resolve (argument : Option LogLevel) (environment : Option String) : LogLevel :=
  (argument.or (environment.bind ofEnvironment?)).getD .info

end LogLevel

/-! ### Arguments -/

/-- What the command line asks for. -/
structure Arguments where
  /-- The project configuration file. -/
  config : String := "Incbuild.toml"
  /-- Keep running and build again when a unit changes. -/
  watch : Bool := false
  /-- Recheck and emit every unit. -/
  force : Bool := false
  /-- Describe the project without building it. -/
  dryRun : Bool := false
  /-- Print the dependencies of this unit. -/
  deps : Option String := none
  logLevel : Option LogLevel := none
  deriving Repr, DecidableEq

/-- Why arguments were not accepted. -/
inductive UsageError where
  | unknownArgument
  /-- A value is missing or is none of those possible. -/
  | invalidValue
  /-- A switch was given a value. -/
  | tooManyValues
  /-- An option was given twice. -/
  | repeated
  /-- Help was asked for. -/
  | help
  /-- The version was asked for. -/
  | version
  deriving Repr, DecidableEq

namespace CommandLine

def versionLine : String := "incbuild 0.1.0\n"

/-- An option that takes a value. -/
inductive Setting where
  | config
  | deps
  | logLevel
  deriving Repr, DecidableEq

/-- An option that takes no value. -/
inductive Switch where
  | watch
  | force
  | dryRun
  | help
  | version
  deriving Repr, DecidableEq

def settingNames : List (String × Setting) :=
  [("config", .config), ("deps", .deps), ("log-level", .logLevel)]

def switchNames : List (String × Switch) :=
  [("watch", .watch), ("force", .force), ("dry-run", .dryRun), ("help", .help),
    ("version", .version)]

def switchLetters : List (Char × Switch) :=
  [('h', .help), ('V', .version)]

/-- What was read so far. -/
structure Progress where
  /-- The accepted settings. -/
  settings : List (Setting × String) := []
  /-- The accepted switches. -/
  switches : List Switch := []
  /-- The setting that waits for its value, or for being accepted with it. -/
  pending : Option (Setting × Option String) := none
  /-- The options have ended. -/
  ended : Bool := false
  deriving Repr, DecidableEq

namespace Progress

/-- Whether a setting may have a value. -/
def isPossible (setting : Setting) (value : String) : Bool :=
  match setting with
  | .logLevel => (LogLevel.names.lookup value).isSome
  | _ => true

/-- Accept a setting with its value. -/
def accept (p : Progress) (setting : Setting) (value : String) : Except UsageError Progress :=
  if p.settings.any (·.1 == setting) then .error .repeated
  else if isPossible setting value then
    .ok { p with settings := p.settings ++ [(setting, value)] }
  else .error .invalidValue

/-- Accept the setting that waits. -/
def settle (p : Progress) : Except UsageError Progress :=
  match p.pending with
  | none => .ok p
  | some (_, none) => .error .invalidValue
  | some (setting, some value) => { p with pending := none }.accept setting value

def turnOn (p : Progress) (switch : Switch) : Except UsageError Progress := do
  let p ← p.settle
  match switch with
  | .help => throw .help
  | .version => throw .version
  | _ =>
      if p.switches.contains switch then throw .repeated
      return { p with switches := p.switches ++ [switch] }

def long (p : Progress) (name : String) (value : Option String) : Except UsageError Progress :=
  match settingNames.lookup name, switchNames.lookup name, value with
  | some setting, _, some value => do (← p.settle).accept setting value
  | some setting, _, none => do return { ← p.settle with pending := some (setting, none) }
  | none, some _, some _ => .error .tooManyValues
  | none, some switch, none => p.turnOn switch
  | none, none, _ => .error .unknownArgument

def short (p : Progress) : List Char → Except UsageError Progress
  | [] => .ok p
  | letter :: letters =>
      match switchLetters.lookup letter with
      | some switch => do (← p.turnOn switch).short letters
      | none => .error .unknownArgument

/-- Cut an option at the first equals sign. -/
def cut (option : List Char) : String × Option String :=
  match option.dropWhile (· != '=') with
  | [] => (String.ofList option, none)
  | _ :: value => (String.ofList (option.takeWhile (· != '=')), some (String.ofList value))

def plain (p : Progress) (argument : String) : Except UsageError Progress :=
  match p.pending with
  | some (setting, none) => .ok { p with pending := some (setting, some argument) }
  | _ => .error .unknownArgument

def step (p : Progress) (argument : String) : Except UsageError Progress :=
  if p.ended then .error .unknownArgument
  else
    match argument.toList with
    | ['-', '-'] => .ok { p with ended := true }
    | '-' :: '-' :: option =>
        let (name, value) := cut option
        p.long name value
    | '-' :: letter :: letters => p.short (letter :: letters)
    | _ => p.plain argument

def value? (p : Progress) (setting : Setting) : Option String :=
  p.settings.lookup setting

def arguments (p : Progress) : Arguments where
  config := (p.value? .config).getD ({} : Arguments).config
  watch := p.switches.contains .watch
  force := p.switches.contains .force
  dryRun := p.switches.contains .dryRun
  deps := p.value? .deps
  logLevel := (p.value? .logLevel).bind fun name => LogLevel.names.lookup name

end Progress

def parse (arguments : List String) : Except UsageError Arguments := do
  let p ← arguments.foldlM Progress.step {}
  return (← p.settle).arguments

end CommandLine

end Rebuild
