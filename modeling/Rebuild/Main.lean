import Rebuild.Run
import Rebuild.Storage.FileTree

/-!
# The command line program

Reads the files of the project into a tree, does what the arguments ask for, prints the lines and
writes back the files that changed.  With `--watch` the files are read again at intervals, and every
difference is one batch of events.

Everything that is decided is decided by `CommandLine.parse`, `run` and `Session.watchRounds`.
-/

namespace Rebuild.Main

def helpLines : List String :=
  ["Incrementally check and emit a project of .unit files.",
    "",
    "Usage: incbuild [OPTIONS]",
    "",
    "Options:",
    "      --config <PATH>      Path to the project config file (TOML) [default: Incbuild.toml]",
    "      --watch              Keep running and rebuild whenever a unit changes",
    "      --force              Ignore persisted state; recheck and re-emit every unit",
    "      --dry-run            Print units, dependencies and import cycles and exit",
    "      --deps <UNIT>        Print the transitive dependencies of a unit and exit",
    "      --log-level <LEVEL>  Logging level [possible values: error, warn, info, debug, trace]",
    "  -h, --help               Print help",
    "  -V, --version            Print version"]

def usageText : UsageError → String
  | .unknownArgument => "error: unexpected argument found"
  | .invalidValue => "error: a value is missing or not possible"
  | .tooManyValues => "error: unexpected value for an option that takes none"
  | .repeated => "error: an argument cannot be used multiple times"
  | .help => ""
  | .version => ""

/-- The names on the way to an absolute path. -/
def namesOf (path : DiskPath) : List String :=
  (FileTree.parts path).filter (· != "")

/-- The directories on the way to a location. -/
def withAncestors (t : FileTree) (location : FileTree.Location) : FileTree :=
  (List.range location.length).foldl (fun t i => t.put (location.take (i + 1)) none) t

/-- Read a directory and everything below it into a tree. -/
partial def readDir (t : FileTree) (location : FileTree.Location) (path : String) : IO FileTree := do
  let here ← IO.currentDir
  let mut t := t.put location none
  for entry in ← (here / path).readDir do
    let name := entry.fileName
    let below := path ++ "/" ++ name
    if ← (here / below).isDir then
      t ← readDir t (location ++ [name]) below
    else
      let bytes ← IO.FS.readBinFile below
      t := t.put (location ++ [name]) (some bytes.toList)
  return t

/-- The files of the project whose configuration file is given. -/
def readProject (workDir config : DiskPath) : IO FileTree := do
  let t : FileTree := withAncestors { workDir := namesOf workDir } (namesOf workDir)
  try
    let root := toString (← IO.FS.realPath (Loaded.rootOf workDir config))
    readDir (withAncestors t (namesOf root)) (namesOf root) root
  catch _ => return t

/-- Write the files of a tree that are not the same in another one. -/
def writeChanges (before after : FileTree) : IO Unit := do
  for (location, content) in after.entries.reverse do
    if before.entries.lookup location != some content then
      let path := "/" ++ String.intercalate "/" location
      match content with
      | none => IO.FS.createDirAll path
      | some bytes =>
          IO.FS.createDirAll ("/" ++ String.intercalate "/" location.dropLast)
          IO.FS.writeBinFile path ⟨bytes.toArray⟩

/-- The paths of the files in which two trees differ. -/
def differences (before after : FileTree) : List DiskPath :=
  let changed := after.entries.filter fun (l, content) =>
    content.isSome && before.entries.lookup l != some content
  let removed := before.entries.filter fun (l, content) =>
    content.isSome && (after.entries.lookup l).isNone
  (changed ++ removed).map fun entry => "/" ++ String.intercalate "/" entry.1

def printLines (lines : List String) : IO Unit := do
  lines.forM IO.println
  (← IO.getStdout).flush

/-- Look at the files at intervals and handle the differences. -/
partial def watchLoop (arguments : Arguments) (workDir : DiskPath) (matcher : Matcher)
    (session : Session (ProjectHost FileTree) AnyStore) (last : CycleReport) : IO RunOutcome := do
  IO.sleep 500
  let before := session.program.host.storage
  let now ← readProject workDir arguments.config
  let root := DiskPath.join workDir session.program.host.root
  let units := matcher.changedUnits now.canonical? root (differences before now)
  if units.isEmpty then watchLoop arguments workDir matcher session last
  else
    let edit := fun (p : Program (ProjectHost FileTree)) =>
      { p with host := { p.host with storage := now } }
    let watched := session.watchRounds last [⟨edit, [.changed units]⟩]
    writeChanges now watched.session.program.host.storage
    watched.cycles.forM fun report => printLines report.lines
    match watched.outcome with
    | .error e => throw (IO.userError e.message)
    | .ok report =>
        if report.cancelled then return ⟨report.errorCount, true⟩
        watchLoop arguments workDir matcher watched.session report

/-- Keep building until the program is stopped. -/
def watch (arguments : Arguments) (workDir : DiskPath) (files : FileTree) :
    IO (Except RunFailure RunOutcome) := do
  match Loaded.ofArguments arguments workDir files with
  | .error failure => return .error failure
  | .ok loaded =>
      match loaded.openSession arguments.force with
      | .error failure => return .error failure
      | .ok session =>
          let (outcome, session) := session.runCycle
          writeChanges files session.program.host.storage
          match outcome with
          | .error e => return .error ⟨e, none⟩
          | .ok report =>
              printLines report.lines
              return .ok (← watchLoop arguments workDir loaded.host.matcher session report)

/-- Do what the arguments ask for; the exit code. -/
def perform (arguments : Arguments) : IO UInt32 := do
  let workDir := toString (← IO.currentDir)
  let files ← readProject workDir arguments.config
  let outcome ←
    if arguments.watch && !arguments.dryRun && arguments.deps.isNone then
      watch arguments workDir files
    else do
      let finished := run arguments workDir files
      writeChanges files finished.storage
      printLines finished.lines
      pure finished.outcome
  match outcome with
  | .ok outcome => return UInt32.ofNat outcome.exitCode
  | .error failure =>
      IO.eprintln ("incbuild error: " ++ failure.message)
      return 1

end Rebuild.Main

def main (arguments : List String) : IO UInt32 := do
  match Rebuild.CommandLine.parse arguments with
  | .ok parsed => Rebuild.Main.perform parsed
  | .error .help =>
      Rebuild.Main.printLines Rebuild.Main.helpLines
      return 0
  | .error .version =>
      IO.print Rebuild.CommandLine.versionLine
      return 0
  | .error e =>
      IO.eprintln (Rebuild.Main.usageText e)
      return 2
