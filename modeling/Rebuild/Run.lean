import Rebuild.CommandLine
import Rebuild.Config
import Rebuild.Session

/-!
# Running a build

A run loads the configuration, starts a program over the project directory and either describes the
project or builds it once.

* `Loaded.ofArguments`: the configuration and a host for the project.  The project directory is the
  one that holds the configuration file;
* `describe`: what the project consists of, for a dry run;
* `openSession`: a session that continues from the stored document.  A document that cannot be read
  is treated as missing;
* `run`: all of it, with the text that is printed and the files as they are afterwards.
-/

namespace Rebuild

structure RunOutcome where
  /-- The number of errors that the last cycle reported. -/
  errors : Nat := 0
  cancelled : Bool := false
  deriving Repr, DecidableEq

def RunOutcome.exitCode (o : RunOutcome) : Nat :=
  if o.cancelled then 130 else if 0 < o.errors then 1 else 0

structure RunFailure where
  cause : Error
  /-- What was attempted, if that says more than the cause. -/
  context : Option String := none
  deriving Repr, DecidableEq

/-- The wording of a failure: its outermost context. -/
def RunFailure.message (f : RunFailure) : String :=
  f.context.getD f.cause.message

/-- A run that has come to its end. -/
structure Finished (σ : Type) where
  outcome : Except RunFailure RunOutcome
  /-- The printed lines. -/
  lines : List String := []
  /-- The files afterwards. -/
  storage : σ

/-- A project that was found. -/
structure Loaded (σ : Type) where
  config : Config
  root : DiskPath
  host : ProjectHost σ

namespace Loaded

variable {σ : Type} [Storage σ]

/-- The directory of a configuration file, or the working directory for a bare file name. -/
def rootOf (workDir configPath : DiskPath) : DiskPath :=
  match DiskPath.parent? configPath with
  | some parent => if parent.isEmpty then workDir else parent
  | none => workDir

def readConfig (s : σ) (path : DiskPath) : Except RunFailure Config :=
  let context := some ("loading config " ++ Text.quotePath path)
  match Storage.readText s path with
  | .error _ => .error ⟨.io, context⟩
  | .ok text =>
      match Config.parse text with
      | .error e => .error ⟨e, context⟩
      | .ok config => .ok config

/-- The project that the arguments name. -/
def ofArguments (arguments : Arguments) (workDir : DiskPath) (s : σ) :
    Except RunFailure (Loaded σ) :=
  match readConfig s arguments.config with
  | .error failure => .error failure
  | .ok config =>
      let root := rootOf workDir arguments.config
      match config.host s root with
      | .error e => .error ⟨e, none⟩
      | .ok host => .ok ⟨config, root, host⟩

def store (l : Loaded σ) : AnyStore :=
  match l.config.buildInfoStorage with
  | .file => .file ⟨DiskPath.join l.root l.config.buildInfo⟩
  | .memory => .memory {}

/-- A session over the project that continues from the stored document. -/
def openSession (l : Loaded σ) (force : Bool) :
    Except RunFailure (Session (ProjectHost σ) AnyStore) :=
  let document := (Store.load l.store l.host).toOption.join
  match Program.start l.host l.config.options document with
  | .error (e, _) => .error ⟨e, none⟩
  | .ok program => .ok ⟨if force then program.forceRebuild else program, l.store⟩

end Loaded

/-! ### Descriptions -/

section Describe

variable {η : Type}

/-- The lines about a unit: its path, whether it reaches the global scope, and what it imports. -/
def unitLines (p : Program η) (unit : UnitId) : List String :=
  let g := p.state.graph
  let imports := (g.dependenciesOf unit).map g.pathOf
  ["  - " ++ g.pathOf unit]
    ++ (if (p.state.info? unit).any (·.isGlobal) then ["      global: true"] else [])
    ++ (if imports.isEmpty then [] else ["      imports: " ++ Text.quoteList imports])

def cycleLines (cycles : List (List UnitPath)) : List String :=
  if cycles.isEmpty then []
  else
    ["", "import cycles (" ++ toString cycles.length ++ "):"]
      ++ cycles.map fun cycle => "  - " ++ String.intercalate " -> " cycle

def describe (c : Config) (p : Program η) : List String :=
  let g := p.state.graph
  ["incbuild dry-run",
    "  config.dependency_tracking = " ++ toString c.dependencyTracking,
    "  config.emit_declarations = " ++ toString c.emitDeclarations,
    "  config.include_inferred_types = " ++ toString c.includeInferredTypes,
    "  config.build_info = " ++ Text.quotePath c.buildInfo,
    "  config.out_dir = " ++ Text.quotePath c.outDir,
    "",
    "units (" ++ toString g.size ++ "):"]
    ++ g.units.flatMap (unitLines p) ++ cycleLines g.importCycles

end Describe

/-! ### Runs -/

variable {σ : Type} [Storage σ]

/-- Answer a question about a project without building it. -/
def inspect (l : Loaded σ) (deps : Option String) : Except RunFailure (List String) :=
  match Program.start l.host l.config.options none with
  | .error (e, _) => .error ⟨e, none⟩
  | .ok program =>
      match deps with
      | none => .ok (describe l.config program)
      | some unit => (program.dependenciesOf unit).mapError fun e => ⟨e, none⟩

def buildOnce (l : Loaded σ) (force : Bool) : Finished σ :=
  match l.openSession force with
  | .error failure => { outcome := .error failure, storage := l.host.storage }
  | .ok session =>
      let (outcome, session) := session.runCycle
      let storage := session.program.host.storage
      match outcome with
      | .error e => { outcome := .error ⟨e, none⟩, storage }
      | .ok report =>
          { outcome := .ok ⟨report.errorCount, report.cancelled⟩, lines := report.lines, storage }

def run (arguments : Arguments) (workDir : DiskPath) (s : σ) : Finished σ :=
  match Loaded.ofArguments arguments workDir s with
  | .error failure => { outcome := .error failure, storage := s }
  | .ok loaded =>
      if arguments.dryRun || arguments.deps.isSome then
        match inspect loaded arguments.deps with
        | .error failure => { outcome := .error failure, storage := s }
        | .ok lines => { outcome := .ok {}, lines, storage := s }
      else buildOnce loaded arguments.force

end Rebuild
