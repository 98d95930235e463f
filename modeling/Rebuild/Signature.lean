import Rebuild.Digest

/-!
# Versions, interfaces and signatures

Two digests describe a unit.  Its *version* is the digest of its text.  Its *signature* is the
digest of the declarations it offers to other units, and is known only after a successful check.

* `Signature.differs`: whether a move from one signature to another concerns the dependents; an
  unknown signature on either side always does;
* `Interface.encoding`: the bytes a signature is the digest of.  Declarations are taken in sorted
  order and every field is preceded by its length, so the bytes determine the visible
  declarations up to their order;
* `Interface.signature`: the digest of that encoding.
-/

namespace Rebuild

/-- The version of a unit: the digest of its text. -/
def version (text : String) : String :=
  Digest.ofText text

/-- What is known about the interface of a unit. -/
inductive Signature where
  /-- Not checked since the text last changed, or the check failed. -/
  | unknown
  /-- The digest found by the last successful check. -/
  | known (hash : String)
  deriving Repr, DecidableEq, Inhabited

namespace Signature

def isKnown : Signature → Bool
  | .unknown => false
  | .known _ => true

def hash? : Signature → Option String
  | .unknown => none
  | .known hash => some hash

def ofHash? : Option String → Signature
  | none => .unknown
  | some hash => .known hash

/-- Whether a move from `old` to `new` concerns the dependents. -/
def differs : Signature → Signature → Bool
  | .known old, .known new => old != new
  | _, _ => true

end Signature

/-- One declaration that a unit offers to others. -/
structure Declaration where
  kind : String
  name : String
  /-- The type text of the declaration. -/
  shape : String
  /-- The shape was inferred and not written out. -/
  inferred : Bool := false
  deriving Repr, DecidableEq

/-- The declarations a unit offers to others. -/
abbrev Interface := List Declaration

namespace Declaration

/-- The order in which declarations enter a signature: by name, kind and shape. -/
def le (a b : Declaration) : Bool :=
  if a.name ≠ b.name then decide (a.name < b.name)
  else if a.kind ≠ b.kind then decide (a.kind < b.kind)
  else decide (a.shape ≤ b.shape)

end Declaration

namespace Interface

/-- A number as eight bytes, least significant first. -/
def lengthBytes (n : Nat) : List UInt8 :=
  (List.range 8).map fun i => UInt8.ofNat (n / Nat.pow 256 i % 256)

/-- A field preceded by the number of its bytes. -/
def field (text : String) : List UInt8 :=
  let bytes := Text.Utf8.encode text
  lengthBytes bytes.length ++ bytes

def declarationBytes (d : Declaration) : List UInt8 :=
  field d.kind ++ field d.name ++ field d.shape

/-- The visible declarations in the order in which they enter a signature. -/
def visible (counts : Declaration → Bool) (interface : Interface) : List Declaration :=
  (interface.filter counts).mergeSort Declaration.le

/-- The bytes a signature is the digest of. -/
def encoding (counts : Declaration → Bool) (interface : Interface) : List UInt8 :=
  (visible counts interface).flatMap declarationBytes

/-- The signature digest of an interface, of which only declarations in `counts` matter. -/
def signature (counts : Declaration → Bool) (interface : Interface) : String :=
  Digest.ofBytes (encoding counts interface)

end Interface

end Rebuild
