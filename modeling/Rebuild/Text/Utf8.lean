/-!
# UTF-8

Encoding of texts as bytes, and decoding that says where and how it fails.

* `encode`: the bytes of a text;
* `decode`: the text of a byte sequence, or its first fault.  A fault records how many bytes
  before it were well formed, and how many bytes form the broken sequence; `none` when the
  input ends inside a sequence that could still have been completed;
* `decodeLossy`: a text for any byte sequence, with one replacement character for each broken
  sequence.

A broken sequence is as long as a well-formed character could have started with it, so decoding
goes on at the first byte that cannot continue it.
-/

namespace Rebuild.Text.Utf8

def encode (s : String) : List UInt8 :=
  s.toList.flatMap String.utf8EncodeChar

/-- Why a byte sequence is not UTF-8. -/
structure Fault where
  /-- The number of well-formed bytes before the fault. -/
  index : Nat
  /-- The length of the broken sequence, or `none` when the input ends inside it. -/
  length : Option Nat
  deriving Repr, DecidableEq

def Fault.message (fault : Fault) : String :=
  match fault.length with
  | some n => s!"invalid utf-8 sequence of {n} bytes from index {fault.index}"
  | none => s!"incomplete utf-8 byte sequence from index {fault.index}"

/-- What stands at the front of a byte sequence. -/
inductive Front where
  /-- A character, and the number of its bytes. -/
  | char (c : Char) (size : Nat)
  /-- A broken sequence of that many bytes. -/
  | broken (size : Nat)
  /-- The input ends inside a sequence. -/
  | incomplete

def within (low high b : UInt8) : Bool :=
  low ≤ b && b ≤ high

/-- A byte that continues a character. -/
def isTail (b : UInt8) : Bool :=
  within 0x80 0xBF b

/-- The payload of a continuing byte. -/
def payload (b : UInt8) : Nat :=
  b.toNat % 64

/-- Whether `b` may follow the first byte `a` of a character of three bytes. -/
def secondOfThree (a b : UInt8) : Bool :=
  if a = 0xE0 then within 0xA0 0xBF b
  else if a = 0xED then within 0x80 0x9F b
  else isTail b

/-- Whether `b` may follow the first byte `a` of a character of four bytes. -/
def secondOfFour (a b : UInt8) : Bool :=
  if a = 0xF0 then within 0x90 0xBF b
  else if a = 0xF4 then within 0x80 0x8F b
  else isTail b

/-- Read the front of a byte sequence that starts with `a`. -/
def front (a : UInt8) (rest : List UInt8) : Front :=
  if a < 0x80 then .char (Char.ofNat a.toNat) 1
  else if within 0xC2 0xDF a then
    match rest with
    | [] => .incomplete
    | b :: _ =>
        if isTail b then .char (Char.ofNat (a.toNat % 32 * 64 + payload b)) 2 else .broken 1
  else if within 0xE0 0xEF a then
    match rest with
    | [] => .incomplete
    | b :: rest =>
        if secondOfThree a b then
          match rest with
          | [] => .incomplete
          | c :: _ =>
              if isTail c then
                .char (Char.ofNat (a.toNat % 16 * 4096 + payload b * 64 + payload c)) 3
              else .broken 2
        else .broken 1
  else if within 0xF0 0xF4 a then
    match rest with
    | [] => .incomplete
    | b :: rest =>
        if secondOfFour a b then
          match rest with
          | [] => .incomplete
          | c :: rest =>
              if isTail c then
                match rest with
                | [] => .incomplete
                | d :: _ =>
                    if isTail d then
                      .char (Char.ofNat
                        (a.toNat % 8 * 262144 + payload b * 4096 + payload c * 64 + payload d)) 4
                    else .broken 3
              else .broken 2
        else .broken 1
  else .broken 1

/-- Decode from byte `index` on; `skip` bytes belong to a character that is already read. -/
def decodeFrom (index : Nat) (skip : Nat) : List UInt8 → Except Fault (List Char)
  | [] => .ok []
  | a :: rest =>
      match skip with
      | skip + 1 => decodeFrom index skip rest
      | 0 =>
          match front a rest with
          | .char c size => (decodeFrom (index + size) (size - 1) rest).map (c :: ·)
          | .broken size => .error ⟨index, some size⟩
          | .incomplete => .error ⟨index, none⟩

/-- The text of a byte sequence, or its first fault. -/
def decode (bytes : List UInt8) : Except Fault String :=
  (decodeFrom 0 0 bytes).map String.ofList

/-- Decode with replacement; `skip` bytes belong to a sequence that is already read. -/
def lossyFrom (skip : Nat) : List UInt8 → List Char
  | [] => []
  | a :: rest =>
      match skip with
      | skip + 1 => lossyFrom skip rest
      | 0 =>
          match front a rest with
          | .char c size => c :: lossyFrom (size - 1) rest
          | .broken size => Char.ofNat 0xFFFD :: lossyFrom (size - 1) rest
          | .incomplete => [Char.ofNat 0xFFFD]

/-- The text of a byte sequence with each broken sequence replaced. -/
def decodeLossy (bytes : List UInt8) : String :=
  String.ofList (lossyFrom 0 bytes)

end Rebuild.Text.Utf8
