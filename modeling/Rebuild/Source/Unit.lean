import Rebuild.Source.Line

/-!
# Unit texts

What the lines of a unit text say, collected by kind, each with its line number counted from one.
-/

namespace Rebuild.Source

/-- A unit that is imported or re-exported. -/
structure Import where
  path : UnitPath
  reexport : Bool
  line : Nat
  deriving Repr, DecidableEq

inductive Export where
  | declared (kind name shape : String) (line : Nat)
  | inferred (name : String) (source : UnitPath) (member : String) (line : Nat)
  deriving Repr, DecidableEq

def Export.name : Export → String
  | .declared _ name _ _ => name
  | .inferred name _ _ _ => name

def Export.line : Export → Nat
  | .declared _ _ _ line => line
  | .inferred _ _ _ line => line

/-- The unit that an inferred export takes its shape from. -/
def Export.source? : Export → Option UnitPath
  | .declared .. => none
  | .inferred _ source _ _ => some source

structure UseSite where
  source : UnitPath
  member : String
  line : Nat
  deriving Repr, DecidableEq

/-- A diagnostic that the text itself asks for. -/
structure Directive where
  category : Category
  message : String
  line : Nat
  deriving Repr, DecidableEq

structure Contents where
  imports : List Import := []
  exports : List Export := []
  declaresGlobal : Bool := false
  uses : List UseSite := []
  directives : List Directive := []
  deriving Repr, DecidableEq

def importOf? (l : Line × Nat) : Option Import :=
  match l.1 with
  | .import_ path reexport => some ⟨path, reexport, l.2⟩
  | _ => none

def exportOf? (l : Line × Nat) : Option Export :=
  match l.1 with
  | .declared kind name shape => some (.declared kind name shape l.2)
  | .inferred name source member => some (.inferred name source member l.2)
  | _ => none

def usesOf (l : Line × Nat) : List UseSite :=
  match l.1 with
  | .plain uses => uses.map fun site => ⟨site.1, site.2, l.2⟩
  | _ => []

def directiveOf? (l : Line × Nat) : Option Directive :=
  match l.1 with
  | .directive category message => some ⟨category, message, l.2⟩
  | _ => none

namespace Contents

/-- Collect numbered lines. -/
def ofLines (lines : List (Line × Nat)) : Contents where
  imports := lines.filterMap importOf?
  exports := lines.filterMap exportOf?
  declaresGlobal := lines.any fun l => l.1 == .globalScope
  uses := lines.flatMap usesOf
  directives := lines.filterMap directiveOf?

/-- What a text says. -/
def parse (text : String) : Contents :=
  ofLines (((Text.lines text.toList).map classify).zipIdx 1)

/-- Whether a path can be named in this unit: it is imported, re-exported, or the source of an
inferred export. -/
def references (c : Contents) (path : UnitPath) : Bool :=
  c.imports.any (·.path == path) || c.exports.any fun e => e.source? == some path

end Contents

end Rebuild.Source
