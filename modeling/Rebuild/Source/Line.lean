import Rebuild.Basic
import Rebuild.Text.Word

/-!
# Lines of unit text

The unit language is read line by line.  A line is one of the following, tried in this order:

* a directive `!error message` or `!warn message`;
* an import `import "path"`;
* a re-export `export * from "path"`;
* an inferred export `export let name = "path".member`;
* a declared export `export kind name shape`;
* a declaration in the global scope, `declare global`;
* implementation text, which may contain use sites `use "path".member`.

Blanks may stand around the parts, and a semicolon may end an import or export.
-/

namespace Rebuild.Source

inductive Line where
  | directive (category : Category) (message : String)
  | import_ (path : UnitPath) (reexport : Bool)
  /-- An export whose shape is written out. -/
  | declared (kind name shape : String)
  /-- An export whose shape is that of a member of another unit. -/
  | inferred (name : String) (source : UnitPath) (member : String)
  | globalScope
  /-- Implementation text with its use sites: the unit and the member of each. -/
  | plain (uses : List (UnitPath × String))
  deriving Repr, DecidableEq

/-! ### Parts of lines -/

/-- Read a fixed word. -/
def word? : List Char → List Char → Option (List Char)
  | [], cs => some cs
  | _ :: _, [] => none
  | w :: word, c :: cs => if w = c then word? word cs else none

/-- Read at least one blank, and all that follow it. -/
def blanks? : List Char → Option (List Char)
  | [] => none
  | c :: cs => if Text.isBlank c then some (Text.trimStart cs) else none

/-- A character that a name may start with. -/
def isNameStart (c : Char) : Bool :=
  ('a' ≤ c && c ≤ 'z') || ('A' ≤ c && c ≤ 'Z') || c == '_'

/-- A character that a name may go on with. -/
def isNamePart (c : Char) : Bool :=
  isNameStart c || ('0' ≤ c && c ≤ '9')

/-- Read a name, as long as it goes. -/
def name? : List Char → Option (List Char × List Char)
  | [] => none
  | c :: cs =>
      if isNameStart c then some (c :: cs.takeWhile isNamePart, cs.dropWhile isNamePart) else none

/-- Read a run of letters and underscores, as long as it goes. -/
def kind? (cs : List Char) : Option (List Char × List Char) :=
  if (cs.takeWhile isNameStart).isEmpty then none
  else some (cs.takeWhile isNameStart, cs.dropWhile isNameStart)

/-- Read a text in double quotes that is not empty. -/
def quoted? (cs : List Char) : Option (List Char × List Char) := do
  let cs ← word? ['"'] cs
  let rest ← word? ['"'] (cs.dropWhile (· != '"'))
  if (cs.takeWhile (· != '"')).isEmpty then none else some (cs.takeWhile (· != '"'), rest)

def dropSemicolon : List Char → List Char
  | ';' :: rest => rest
  | cs => cs

/-- Whether nothing follows but blanks and at most one semicolon. -/
def isLineEnd (cs : List Char) : Bool :=
  (Text.trimStart (dropSemicolon (Text.trimStart cs))).isEmpty

/-- The unit path written as `raw`. -/
def unitPath (raw : List Char) : UnitPath :=
  UnitPath.normalize (String.ofList raw)

/-! ### Kinds of lines -/

def directive? (cs : List Char) : Option Line := do
  let cs ← word? ['!'] (Text.trimStart cs)
  let (category, rest) ←
    match word? "error".toList cs with
    | some rest => some (Category.error, rest)
    | none => (word? "warn".toList cs).map fun rest => (Category.warning, rest)
  let rest ← blanks? rest
  return .directive category (String.ofList (Text.trimEnd rest))

def import? (cs : List Char) : Option Line := do
  let rest ← blanks? (← word? "import".toList (Text.trimStart cs))
  let (path, rest) ← quoted? rest
  if isLineEnd rest then some (.import_ (unitPath path) false) else none

/-- The word that every export starts with, and the blanks after it. -/
def export? (cs : List Char) : Option (List Char) := do
  blanks? (← word? "export".toList (Text.trimStart cs))

def reexport? (cs : List Char) : Option Line := do
  let rest ← blanks? (← word? ['*'] (← export? cs))
  let rest ← blanks? (← word? "from".toList rest)
  let (path, rest) ← quoted? rest
  if isLineEnd rest then some (.import_ (unitPath path) true) else none

def inferred? (cs : List Char) : Option Line := do
  let rest ← blanks? (← word? "let".toList (← export? cs))
  let (name, rest) ← name? rest
  let rest ← word? ['='] (Text.trimStart rest)
  let (path, rest) ← quoted? (Text.trimStart rest)
  let (member, rest) ← name? (← word? ['.'] rest)
  if isLineEnd rest then
    some (.inferred (String.ofList name) (unitPath path) (String.ofList member))
  else none

/-- The shape written in the rest of a declared export: blanks at the ends and one semicolon do not
belong to it, and blanks within it count as one space. -/
def shapeOf (rest : List Char) : List Char :=
  let body := (dropSemicolon (Text.trimEnd rest).reverse).reverse
  Text.join [' '] (Text.words body)

def declared? (cs : List Char) : Option Line := do
  let (kind, rest) ← kind? (← export? cs)
  let (name, rest) ← name? (← blanks? rest)
  return .declared (String.ofList kind) (String.ofList name) (String.ofList (shapeOf rest))

/-- A declaration in the global scope. -/
def globalScope? (cs : List Char) : Option Line := do
  let rest ← blanks? (← word? "declare".toList (Text.trimStart cs))
  let rest ← word? "global".toList rest
  if Text.atBoundary (some 'l') rest.head? then some .globalScope else none

/-! ### Use sites -/

/-- A use site at the beginning: the unit, the member, and the number of characters. -/
def useSite? (cs : List Char) : Option ((UnitPath × String) × Nat) := do
  let rest ← blanks? (← word? "use".toList cs)
  let (path, rest) ← quoted? rest
  let (member, rest) ← name? (← word? ['.'] rest)
  return ((unitPath path, String.ofList member), cs.length - rest.length)

/-- The use sites of a text, from left to right and not overlapping.  `before` is the character
before the text, and the first `skip` characters belong to a use site already found. -/
def usesFrom (before : Option Char) (skip : Nat) : List Char → List (UnitPath × String)
  | [] => []
  | c :: rest =>
      match skip with
      | skip + 1 => usesFrom (some c) skip rest
      | 0 =>
          if Text.atBoundary before (some c) then
            match useSite? (c :: rest) with
            | some (site, length) => site :: usesFrom (some c) (length - 1) rest
            | none => usesFrom (some c) 0 rest
          else usesFrom (some c) 0 rest

def uses (cs : List Char) : List (UnitPath × String) :=
  usesFrom none 0 cs

def classify (cs : List Char) : Line :=
  ((directive? cs).or <| (import? cs).or <| (reexport? cs).or <| (inferred? cs).or <|
    (declared? cs).or <| globalScope? cs).getD (.plain (uses cs))

end Rebuild.Source
