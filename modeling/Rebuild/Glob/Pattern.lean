import Rebuild.Text.Utf8

/-!
# Glob patterns

A glob pattern is a sequence of tokens:

* a literal character, `?` for any one byte, `*` for any number of bytes;
* `**` between slashes (or at an end of the pattern or of an alternative) for any number of
  directories; elsewhere it is two stars;
* a class in brackets, negated by `!` or `^`; a closing bracket or a hyphen counts as itself
  when it comes first, a backslash always does;
* alternatives in braces, separated by commas, which nest;
* a backslash before a character takes it literally.

`Glob.parse` reads a pattern or says what is wrong with it.
-/

namespace Rebuild.Glob

inductive Token where
  /-- A character. -/
  | literal (c : Char)
  /-- Any one byte. -/
  | any
  /-- Any number of bytes. -/
  | many
  /-- Any number of directories at the beginning. -/
  | leadingDirs
  /-- Any number of directories and a file name at the end. -/
  | trailingDirs
  /-- Any number of directories between two slashes. -/
  | innerDirs
  /-- One of a set of characters, or none of them. -/
  | cls (negated : Bool) (ranges : List (Char × Char))
  /-- One of several patterns. -/
  | alternatives (branches : List (List Token))

/-- What is wrong with a pattern. -/
inductive Fault where
  | unclosedClass
  | invalidRange (first last : Char)
  | unopenedGroup
  | unclosedGroup
  | danglingEscape
  deriving Repr, DecidableEq

def Fault.reason : Fault → String
  | .unclosedClass => "unclosed character class; missing ']'"
  | .invalidRange first last =>
      "invalid range; '" ++ String.singleton first ++ "' > '" ++ String.singleton last ++ "'"
  | .unopenedGroup =>
      "unopened alternate group; missing '\x7b' (maybe escape '\x7d' with '[\x7d]'?)"
  | .unclosedGroup =>
      "unclosed alternate group; missing '\x7d' (maybe escape '\x7b' with '[\x7b]'?)"
  | .danglingEscape => "dangling '\\'"

def Fault.message (fault : Fault) (pattern : String) : String :=
  "error parsing glob '" ++ pattern ++ "': " ++ fault.reason

/-! ### Classes -/

/-- A class that is being read. -/
structure PartialClass where
  /-- The ranges read, last first. -/
  ranges : List (Char × Char) := []
  /-- The last range waits for its end. -/
  open_ : Bool := false
  /-- The number of characters read. -/
  length : Nat := 0

/-- End the last range at `c`. -/
def PartialClass.close (p : PartialClass) (c : Char) : Except Fault PartialClass :=
  match p.ranges with
  | (first, _) :: rest =>
      if c < first then .error (.invalidRange first c)
      else .ok ⟨(first, c) :: rest, false, p.length + 1⟩
  | [] => .ok ⟨[(c, c)], false, p.length + 1⟩

/-- Add `c` as a character of its own. -/
def PartialClass.add (p : PartialClass) (c : Char) : PartialClass :=
  ⟨(c, c) :: p.ranges, false, p.length + 1⟩

/-- Read a class after its opening: the ranges, and the number of characters up to and including
the closing bracket. -/
def readClass (p : PartialClass) : List Char → Except Fault (List (Char × Char) × Nat)
  | [] => .error .unclosedClass
  | c :: rest =>
      if c = ']' ∧ p.length ≠ 0 then
        let ranges := if p.open_ then ('-', '-') :: p.ranges else p.ranges
        .ok (ranges.reverse, p.length + 1)
      else if p.open_ then
        match p.close c with
        | .error fault => .error fault
        | .ok p => readClass p rest
      else if c = '-' ∧ p.length ≠ 0 then
        readClass { p with open_ := true, length := p.length + 1 } rest
      else readClass (p.add c) rest

/-! ### Patterns -/

/-- A pattern that is being read: the tokens of the innermost open branch, last first, and for each
open group its finished branches, last first, with the tokens that stand before the group. -/
structure PartialPattern where
  tokens : List Token := []
  groups : List (List (List Token) × List Token) := []

namespace PartialPattern

def inGroup (p : PartialPattern) : Bool :=
  !p.groups.isEmpty

def push (p : PartialPattern) (token : Token) : PartialPattern :=
  { p with tokens := token :: p.tokens }

def openGroup (p : PartialPattern) : PartialPattern :=
  ⟨[], ([], p.tokens) :: p.groups⟩

/-- Start the next branch of the innermost group; without one, a comma is a character. -/
def comma (p : PartialPattern) : PartialPattern :=
  match p.groups with
  | [] => p.push (.literal ',')
  | (branches, before) :: groups => ⟨[], (p.tokens.reverse :: branches, before) :: groups⟩

def closeGroup (p : PartialPattern) : Except Fault PartialPattern :=
  match p.groups with
  | [] => .error .unopenedGroup
  | (branches, before) :: groups =>
      .ok ⟨.alternatives (p.tokens.reverse :: branches).reverse :: before, groups⟩

/-- The tokens, once the pattern has ended. -/
def finish (p : PartialPattern) : Except Fault (List Token) :=
  if p.inGroup then .error .unclosedGroup else .ok p.tokens.reverse

/-- Add two stars that do not stand for directories. -/
def pushStars (p : PartialPattern) : PartialPattern :=
  (p.push .many).push .many

/-- Replace the last token, a slash, by directories; directories at an end swallow further ones. -/
def pushDirs (p : PartialPattern) (dirs : Token) : PartialPattern :=
  match p.tokens with
  | .leadingDirs :: _ => p
  | .trailingDirs :: _ => p
  | _ :: rest => { p with tokens := dirs :: rest }
  | [] => p

/-- Take two stars; `before` is the character before them and `next` the one after.  Returns the
pattern and whether the next character, a slash, belongs to the stars. -/
def stars (p : PartialPattern) (before next : Option Char) : PartialPattern × Bool :=
  let slashFollows := next == some '/'
  if p.tokens.isEmpty then
    if slashFollows || next.isNone then (p.push .leadingDirs, slashFollows)
    else (p.pushStars, false)
  else if before == some '/' || (p.inGroup && (before == some ',' || before == some '\x7b')) then
    if slashFollows then (p.pushDirs .innerDirs, true)
    else if next.isNone || (p.inGroup && (next == some ',' || next == some '\x7d')) then
      (p.pushDirs .trailingDirs, false)
    else (p.pushStars, false)
  else (p.pushStars, false)

end PartialPattern

/-- Read the rest of a pattern; `before` is the character before it. -/
def parseFrom (p : PartialPattern) (before : Option Char) (pattern : List Char) :
    Except Fault (List Token) :=
  match pattern with
  | [] => p.finish
  | c :: rest =>
      if c = '?' then parseFrom (p.push .any) (some c) rest
      else if c = '*' then
        match rest with
        | '*' :: rest =>
            let (p, takesSlash) := p.stars before rest.head?
            if takesSlash then parseFrom p (some '/') (rest.drop 1) else parseFrom p (some c) rest
        | rest => parseFrom (p.push .many) (some c) rest
      else if c = '[' then
        let negated := rest.head? == some '!' || rest.head? == some '^'
        let body := rest.drop negated.toNat
        match readClass {} body with
        | .error fault => .error fault
        | .ok (ranges, length) =>
            parseFrom (p.push (.cls negated ranges)) (some ']') (body.drop length)
      else if c = '\x7b' then parseFrom p.openGroup (some c) rest
      else if c = '\x7d' then
        match p.closeGroup with
        | .error fault => .error fault
        | .ok p => parseFrom p (some c) rest
      else if c = ',' then parseFrom p.comma (some c) rest
      else if c = '\\' then
        match rest with
        | [] => .error .danglingEscape
        | c :: rest => parseFrom (p.push (.literal c)) (some c) rest
      else parseFrom (p.push (.literal c)) (some c) rest
termination_by pattern.length
decreasing_by
  all_goals subst_vars
  all_goals simp only [List.length_cons, List.length_drop]
  all_goals omega

/-- The tokens of a pattern, or what is wrong with it. -/
def parse (pattern : String) : Except Fault (List Token) :=
  parseFrom {} none pattern.toList

end Rebuild.Glob
