import Rebuild.Basic
import Rebuild.Glob.Match
import Rebuild.Storage.Basic

/-!
# Which files are units

A matcher accepts a path that some include pattern matches and no exclude pattern does.
`Matcher.scan` finds the accepted files below a directory, as sorted unit paths, and
`Matcher.changedUnits` the units that a batch of changed files belongs to.
-/

namespace Rebuild

structure Matcher where
  includes : List (List Glob.Token)
  /-- The exclude patterns, if there are any. -/
  excludes : Option (List (List Glob.Token))

namespace Matcher

/-- The tokens of several patterns, or a failure with a context. -/
def parseAll (context : String) (patterns : List String) :
    Except Error (List (List Glob.Token)) :=
  patterns.mapM fun pattern =>
    match Glob.parse pattern with
    | .ok tokens => .ok tokens
    | .error _ => .error (.other context)

def ofPatterns (includes excludes : List String) : Except Error Matcher := do
  let included ← parseAll "building include globset" includes
  if excludes.isEmpty then return ⟨included, none⟩
  let excluded ← parseAll "building exclude globset" excludes
  return ⟨included, some excluded⟩

def anyMatch (patterns : List (List Glob.Token)) (path : String) : Bool :=
  patterns.any fun tokens => Glob.isMatch tokens path

def isMatch (m : Matcher) (path : String) : Bool :=
  anyMatch m.includes path && !m.excludes.any fun patterns => anyMatch patterns path

/-- A short description: the numbers of patterns. -/
def describe (m : Matcher) : String :=
  let excluded :=
    match m.excludes with
    | some patterns => "Some(" ++ toString patterns.length ++ ")"
    | none => "None"
  "UnitMatcher \x7b include: " ++ toString m.includes.length ++ ", exclude: " ++ excluded ++ " \x7d"

/-! ### Scanning -/

section Scan

variable {σ : Type} [Storage σ]

/-- The unit of a file below `root`, if it is accepted. -/
def unitOf? (m : Matcher) (root path : DiskPath) : Option UnitPath :=
  (DiskPath.unitPathUnder? root path).filter m.isMatch

/-- Visit at most `fuel` directories, the last of `pending` first.  Returns the units found. -/
def scanFrom (m : Matcher) (s : σ) (root : DiskPath) :
    Nat → List DiskPath → List UnitPath → Except Error (List UnitPath)
  | 0, _, found => .ok found
  | _ + 1, [], found => .ok found
  | fuel + 1, dir :: pending, found =>
      match Storage.list s dir with
      | .error e => .error e
      | .ok paths =>
          let dirs := paths.filter (Storage.isDir s)
          let files := paths.filter fun path => !Storage.isDir s path && Storage.isFile s path
          scanFrom m s root fuel (dirs.reverse ++ pending) (found ++ files.filterMap (m.unitOf? root))

/-- The accepted files below a directory, as sorted unit paths.  Every directory is visited once, so
the number of entries bounds the visits. -/
def scan (m : Matcher) (s : σ) (root : DiskPath) : Except Error (List UnitPath) :=
  (scanFrom m s root (Storage.entryCount s + 1) [root] []).map fun units =>
    units.mergeSort fun a b => decide (a ≤ b)

end Scan

/-! ### Changed files -/

/-- The unit path of a changed file.  When the file does not lie below the root as written, both
are compared in their canonical forms, if they have any. -/
def eventUnit? (canonical? : DiskPath → Option DiskPath) (root path : DiskPath) :
    Option UnitPath :=
  (DiskPath.unitPathUnder? root path).or do
    DiskPath.unitPathUnder? (← canonical? root) (← canonical? path)

/-- The accepted units of changed files, in the order of their first mention. -/
def changedUnits (m : Matcher) (canonical? : DiskPath → Option DiskPath) (root : DiskPath)
    (paths : List DiskPath) : List UnitPath :=
  ((paths.filterMap (eventUnit? canonical? root)).filter m.isMatch).eraseDups

end Matcher

end Rebuild
