/-!
# Numbers, dates and times of TOML

A bare value is a run of characters up to a blank, a comma, a closing bracket or a comment.  It is
a number, a date or a time when it has one of these forms:

* integers: decimal with an optional sign and no superfluous zero, or hexadecimal, octal or binary
  after `0x`, `0o` or `0b`;
* floats: a decimal integer with a fraction, an exponent or both, or an infinity or not-a-number;
* dates `YYYY-MM-DD`, times `HH:MM` with optional seconds and fraction, and both joined, with an
  optional offset.

Underscores may stand between digits of numbers.  An integer fits in 128 bits, with or without a
sign, and a float rounds to a finite one of 64 bits.
-/

namespace Rebuild.Toml

/-- Digits of some base, with single underscores between them. -/
def isDigitRun (isDigit : Char → Bool) (cs : List Char) : Bool :=
  match cs with
  | [] => false
  | [c] => isDigit c
  | c :: '_' :: rest => isDigit c && isDigitRun isDigit rest
  | c :: rest => isDigit c && isDigitRun isDigit rest

def isHexDigit (c : Char) : Bool :=
  c.isDigit || ('a' ≤ c && c ≤ 'f') || ('A' ≤ c && c ≤ 'F')

def unsigned : List Char → List Char
  | '+' :: rest => rest
  | '-' :: rest => rest
  | cs => cs

def isDecimal (cs : List Char) : Bool :=
  isDigitRun Char.isDigit cs && (cs.length == 1 || cs.head? != some '0')

/-- The value of a digit of any base up to sixteen. -/
def digitValue (c : Char) : Nat :=
  if c.isDigit then c.toNat - '0'.toNat
  else if c.isUpper then c.toNat - 'A'.toNat + 10
  else c.toNat - 'a'.toNat + 10

/-- The number that digits write in some base, underscores aside. -/
def digitsValue (base : Nat) (cs : List Char) : Nat :=
  (cs.filter (· != '_')).foldl (fun n c => base * n + digitValue c) 0

/-- The first number that does not fit in 128 bits. -/
def integerBound : Nat := 340282366920938463463374607431768211456

/-- An integer after `0x`, `0o` or `0b`. -/
def isBased (base : Nat) (isDigit : Char → Bool) (cs : List Char) : Bool :=
  isDigitRun isDigit cs && digitsValue base cs < integerBound

def isInteger (cs : List Char) : Bool :=
  match cs with
  | '0' :: 'x' :: rest => isBased 16 isHexDigit rest
  | '0' :: 'o' :: rest => isBased 8 (fun c => '0' ≤ c && c ≤ '7') rest
  | '0' :: 'b' :: rest => isBased 2 (fun c => c == '0' || c == '1') rest
  | '-' :: rest => isDecimal rest && 2 * digitsValue 10 rest ≤ integerBound
  | cs => isDecimal (unsigned cs) && digitsValue 10 (unsigned cs) < integerBound

/-- Whether digits times a power of ten round to a finite float: they stay below the middle between
the largest float and the next power of two. -/
def isFinite (digits : List Char) (scale : Int) : Bool :=
  let n := digitsValue 10 digits
  let size := (toString n).length + scale
  if n = 0 || size ≤ 308 then true
  else if 310 < size then false
  else
    let bound := Nat.pow 2 970 * (Nat.pow 2 54 - 1)
    if 0 ≤ scale then n * Nat.pow 10 scale.toNat < bound
    else n < bound * Nat.pow 10 (-scale).toNat

def isFloat (cs : List Char) : Bool :=
  let body := unsigned cs
  let isE := fun c : Char => c == 'e' || c == 'E'
  if body = ['i', 'n', 'f'] || body = ['n', 'a', 'n'] then true
  else
    let mantissa := body.takeWhile (!isE ·)
    let exponent := (body.dropWhile (!isE ·)).drop 1
    let whole := mantissa.takeWhile (· != '.')
    let fraction := (mantissa.dropWhile (· != '.')).drop 1
    let hasFraction := mantissa.contains '.'
    let hasExponent := body.any isE
    let power : Int := digitsValue 10 (unsigned exponent)
    let power := if exponent.head? = some '-' then -power else power
    let places := (fraction.filter (· != '_')).length
    isDecimal whole && (hasFraction || hasExponent)
      && (!hasFraction || isDigitRun Char.isDigit fraction)
      && (!hasExponent || isDigitRun Char.isDigit (unsigned exponent))
      && isFinite (whole ++ fraction) (power - places)

def twoDigits? : List Char → Option Nat
  | [a, b] =>
      if a.isDigit && b.isDigit then
        some (10 * (a.toNat - '0'.toNat) + (b.toNat - '0'.toNat))
      else none
  | _ => none

/-- Two digits between bounds. -/
def inBounds (low high : Nat) (cs : List Char) : Bool :=
  match twoDigits? cs with
  | some n => low ≤ n && n ≤ high
  | none => false

def monthDays (year month : Nat) : Nat :=
  if month = 2 then
    if year % 4 = 0 ∧ (year % 100 ≠ 0 ∨ year % 400 = 0) then 29 else 28
  else if month = 4 ∨ month = 6 ∨ month = 9 ∨ month = 11 then 30
  else 31

def isDate : List Char → Bool
  | [a, b, c, d, '-', e, f, '-', g, h] =>
      match twoDigits? [a, b], twoDigits? [c, d], twoDigits? [e, f], twoDigits? [g, h] with
      | some century, some year, some month, some day =>
          1 ≤ month && month ≤ 12 && 1 ≤ day && day ≤ monthDays (100 * century + year) month
      | _, _, _, _ => false
  | _ => false

/-- Optional seconds and fraction of a time. -/
def isSeconds : List Char → Bool
  | [] => true
  | [':', a, b] => inBounds 0 60 [a, b]
  | ':' :: a :: b :: '.' :: fraction =>
      inBounds 0 60 [a, b] && !fraction.isEmpty && fraction.all Char.isDigit
  | _ => false

def isTime : List Char → Bool
  | a :: b :: ':' :: c :: d :: rest =>
      inBounds 0 23 [a, b] && inBounds 0 59 [c, d] && isSeconds rest
  | _ => false

def isOffset : List Char → Bool
  | [z] => z == 'Z' || z == 'z'
  | [sign, a, b, ':', c, d] =>
      (sign == '+' || sign == '-') && inBounds 0 23 [a, b] && inBounds 0 59 [c, d]
  | _ => false

def isOffsetTime (cs : List Char) : Bool :=
  let isMark := fun c : Char => c == 'Z' || c == 'z' || c == '+' || c == '-'
  let offset := cs.dropWhile (!isMark ·)
  isTime (cs.takeWhile (!isMark ·)) && (offset.isEmpty || isOffset offset)

def isDateTime (cs : List Char) : Bool :=
  match cs.drop 10 with
  | joint :: rest =>
      isDate (cs.take 10) && (joint == 'T' || joint == 't' || joint == ' ') && isOffsetTime rest
  | [] => false

def isScalar (cs : List Char) : Bool :=
  isInteger cs || isFloat cs || isDate cs || isTime cs || isDateTime cs

end Rebuild.Toml
