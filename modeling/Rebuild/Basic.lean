import Rebuild.Text.Blank

/-!
# Units, errors and diagnostics

A unit is named by its path below the project root, with forward slashes.  `UnitPath.normalize`
maps every spelling of a path to one key: blanks around it are dropped, backslashes count as
slashes, and empty segments and segments that are a single dot disappear.

* `Error`: everything that can go wrong, by cause, with its wording in one place;
* `Diagnostic.render`: the line printed for a message about a unit;
* `CompactDiagnostic`: the form kept in a build info document, where the unit is implied;
* `Diagnostic.hostFailure`: what stands in for the results of a check or emit that failed.
-/

namespace Rebuild

/-! ### Paths of units -/

/-- The key of a unit: a path below the project root with forward slashes. -/
abbrev UnitPath := String

namespace UnitPath

/-- A segment that names something: not empty and not a single dot. -/
def isNaming (segment : List Char) : Bool :=
  !segment.isEmpty && segment != ['.']

/-- Backslashes count as slashes. -/
def slash (c : Char) : Char :=
  if c = '\\' then '/' else c

/-- The naming segments of a raw path, in order. -/
def segments (raw : List Char) : List (List Char) :=
  (Text.splitOn '/' ((Text.trim raw).map slash)).filter isNaming

def normalize (raw : String) : UnitPath :=
  String.ofList (Text.join ['/'] (segments raw.toList))

end UnitPath

/-! ### Errors -/

/-- Why an operation failed. -/
inductive Error where
  /-- The project configuration is not acceptable. -/
  | config (reason : String)
  /-- Reading or writing a file failed. -/
  | io
  /-- A configuration text is not TOML, or not of the expected shape. -/
  | toml
  /-- A document is not JSON, or not of the expected shape. -/
  | json
  /-- A unit that is not part of the program was asked for. -/
  | unknownUnit (path : String)
  /-- A build info document carries another tool version. -/
  | versionMismatch (expected found : String)
  /-- A build info document contradicts itself. -/
  | malformed (reason : String)
  /-- The operation was cancelled. -/
  | cancelled
  /-- Any other failure, described by its outermost context. -/
  | other (context : String)
  deriving Repr, DecidableEq

def Error.message : Error → String
  | .config reason => "Configuration error: " ++ reason
  | .io => "IO error"
  | .toml => "TOML parsing error"
  | .json => "JSON error"
  | .unknownUnit path => "Unit not found in program: " ++ path
  | .versionMismatch expected found =>
      "Build info written by tool version " ++ found ++ ", running " ++ expected
  | .malformed reason => "Malformed build info: " ++ reason
  | .cancelled => "Operation cancelled"
  | .other context => context

/-! ### Diagnostics -/

/-- How serious a diagnostic is. -/
inductive Category where
  | error
  | warning
  | message
  deriving Repr, DecidableEq, Inhabited

def Category.name : Category → String
  | .error => "error"
  | .warning => "warning"
  | .message => "message"

/-- A message about one unit. -/
structure Diagnostic where
  unit : UnitPath
  category : Category
  code : Nat
  message : String
  /-- The line, counted from one, when it is known. -/
  line : Option Nat
  deriving Repr, DecidableEq

structure CompactDiagnostic where
  category : Category
  code : Nat
  message : String
  line : Option Nat
  deriving Repr, DecidableEq

namespace Diagnostic

def hostFailureCode : Nat := 6001

def error (unit : UnitPath) (code : Nat) (message : String) : Diagnostic :=
  ⟨unit, .error, code, message, none⟩

def warning (unit : UnitPath) (code : Nat) (message : String) : Diagnostic :=
  ⟨unit, .warning, code, message, none⟩

def atLine (d : Diagnostic) (line : Nat) : Diagnostic :=
  { d with line := some line }

/-- The diagnostic that stands in for the results of a stage that failed on a unit. -/
def hostFailure (unit : UnitPath) (stage reason : String) : Diagnostic :=
  error unit hostFailureCode (stage ++ " failed for '" ++ unit ++ "': " ++ reason)

def isError (d : Diagnostic) : Bool :=
  d.category == .error

def toCompact (d : Diagnostic) : CompactDiagnostic :=
  ⟨d.category, d.code, d.message, d.line⟩

/-- The line printed for a diagnostic. -/
def render (d : Diagnostic) : String :=
  let place :=
    match d.line with
    | some line => d.unit ++ ":" ++ toString line
    | none => d.unit
  place ++ ": " ++ d.category.name ++ " IB" ++ toString d.code ++ ": " ++ d.message

end Diagnostic

def CompactDiagnostic.expand (d : CompactDiagnostic) (unit : UnitPath) : Diagnostic :=
  ⟨unit, d.category, d.code, d.message, d.line⟩

end Rebuild
