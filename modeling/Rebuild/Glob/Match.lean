import Rebuild.Glob.Pattern

/-!
# Matching glob patterns

Patterns match the UTF-8 bytes of a whole path.  `after` gives, for a token and a byte sequence,
what can be left once the token took its share; a pattern matches when nothing can be left.

A class is a set of bytes: of a character that takes several bytes each counts on its own, and a
range runs from the last byte of its first character to the first byte of its last character.
An alternative that can only match nothing, because it is empty, is left out; a group without
alternatives matches nothing but the empty sequence.
-/

namespace Rebuild.Glob

/-- The byte ranges of one range of characters. -/
def byteRanges (range : Char × Char) : List (UInt8 × UInt8) :=
  let single := fun b : UInt8 => (b, b)
  let first := String.utf8EncodeChar range.1
  let last := String.utf8EncodeChar range.2
  if range.1 = range.2 then first.map single
  else
    match first.getLast?, last.head? with
    | some low, some high =>
        first.dropLast.map single ++ [(low, high)] ++ (last.drop 1).map single
    | _, _ => []

def inClass (negated : Bool) (ranges : List (Char × Char)) (b : UInt8) : Bool :=
  ((ranges.flatMap byteRanges).any fun r => r.1 ≤ b && b ≤ r.2) != negated

/-- All ends of a byte sequence, itself and the empty one included. -/
def suffixes : List UInt8 → List (List UInt8)
  | [] => [[]]
  | b :: rest => (b :: rest) :: suffixes rest

def slashByte : UInt8 := 47

/-- What follows a slash somewhere in a byte sequence. -/
def afterSlashes (s : List UInt8) : List (List UInt8) :=
  (suffixes s).filterMap fun rest =>
    match rest with
    | b :: rest => if b = slashByte then some rest else none
    | [] => none

/-- What follows a slash at the beginning. -/
def afterSlash : List UInt8 → List (List UInt8)
  | b :: rest => if b = slashByte then [rest] else []
  | [] => []

/-- What follows the bytes `start` at the beginning. -/
def afterBytes : List UInt8 → List UInt8 → List (List UInt8)
  | [], s => [s]
  | _ :: _, [] => []
  | x :: start, y :: s => if x = y then afterBytes start s else []

/-- Keep one entry of each length. -/
def distinctLengths : List (Nat × List UInt8) → List (Nat × List UInt8)
  | [] => []
  | entry :: entries =>
      let others := distinctLengths entries
      if others.any fun other => other.1 == entry.1 then others else entry :: others

/-- Keep one of the rests of each length; rests of one sequence are equal when they are as long. -/
def distinctRests (rests : List (List UInt8)) : List (List UInt8) :=
  (distinctLengths (rests.map fun s => (s.length, s))).map (·.2)

mutual

/-- Whether a token is only made of empty alternatives. -/
def isVoid : Token → Bool
  | .alternatives branches => areVoidBranches branches
  | _ => false

def areVoid : List Token → Bool
  | [] => true
  | token :: tokens => isVoid token && areVoid tokens

def areVoidBranches : List (List Token) → Bool
  | [] => true
  | branch :: branches => areVoid branch && areVoidBranches branches

end

mutual

/-- What can be left of `s` once a token took its share. -/
def after (s : List UInt8) : Token → List (List UInt8)
  | .literal c => afterBytes (String.utf8EncodeChar c) s
  | .any => match s with
      | _ :: rest => [rest]
      | [] => []
  | .many => suffixes s
  | .leadingDirs => distinctRests (s :: afterSlashes s)
  | .trailingDirs => (afterSlash s).flatMap suffixes
  | .innerDirs => distinctRests (afterSlash s ++ (afterSlash s).flatMap afterSlashes)
  | .cls negated ranges => match s with
      | b :: rest => if inClass negated ranges b then [rest] else []
      | [] => []
  | .alternatives branches =>
      if areVoidBranches branches then [s] else distinctRests (afterAny s branches)

/-- What can be left of one of several rests once a sequence of tokens took its share. -/
def afterSeq (rests : List (List UInt8)) : List Token → List (List UInt8)
  | [] => rests
  | token :: tokens => afterSeq (distinctRests (rests.flatMap fun s => after s token)) tokens

/-- What can be left of `s` once one of several branches took its share; empty ones do not
count. -/
def afterAny (s : List UInt8) : List (List Token) → List (List UInt8)
  | [] => []
  | branch :: branches =>
      (if areVoid branch then [] else afterSeq [s] branch) ++ afterAny s branches

end

/-- Whether a sequence of tokens matches a path.  A pattern that is nothing but leading
directories matches everything. -/
def isMatch (tokens : List Token) (path : String) : Bool :=
  match tokens with
  | [.leadingDirs] => true
  | _ => (afterSeq [Text.Utf8.encode path] tokens).any List.isEmpty

end Rebuild.Glob
