import Rebuild.Json.Value

/-!
# Reading JSON

The reader takes one character at a time, so reading a text is a fold over its characters.  Two
small machines work together:

* the *scanner* (`Mode`) recognises strings and words; a word is a maximal run of characters that
  are neither blank nor punctuation, and is a literal or a number once it ends;
* the *builder* (`Frame`, `Expect`) puts values together on a stack of open lists and objects.

`Json.parse?` succeeds on texts that hold exactly one value.  Nesting is not limited.
-/

namespace Rebuild.Json

/-- A complete token. -/
inductive Token where
  | openObject
  | closeObject
  | openList
  | closeList
  | colon
  | comma
  /-- A string; `none` when it spells no text. -/
  | str (s : Option String)
  /-- A literal or a number. -/
  | leaf (value : Json)

/-! ### Words -/

def isDigits (cs : List Char) : Bool :=
  !cs.isEmpty && cs.all Char.isDigit

def digitsValue (cs : List Char) : Nat :=
  cs.foldl (fun n c => 10 * n + (c.toNat - '0'.toNat)) 0

/-- Digits without a superfluous leading zero. -/
def isInteger (cs : List Char) : Bool :=
  isDigits cs && (cs.length == 1 || cs.head? != some '0')

/-- The exponent of a number: an optional sign and digits. -/
def isExponent : List Char → Bool
  | '+' :: rest => isDigits rest
  | '-' :: rest => isDigits rest
  | rest => isDigits rest

/-- What may follow the integer part of a number, up to its end. -/
def isNumberTail (cs : List Char) : Bool :=
  let isE := fun c : Char => c == 'e' || c == 'E'
  let mantissa := cs.takeWhile (!isE ·)
  let exponent := cs.dropWhile (!isE ·)
  let fractionOk :=
    match mantissa with
    | [] => true
    | '.' :: digits => isDigits digits
    | _ => false
  let exponentOk :=
    match exponent with
    | [] => true
    | _ :: rest => isExponent rest
  fractionOk && exponentOk

def isUnsigned (cs : List Char) : Bool :=
  isInteger (cs.takeWhile Char.isDigit) && isNumberTail (cs.dropWhile Char.isDigit)

def wordValue? (cs : List Char) : Option Json :=
  if cs = ['n', 'u', 'l', 'l'] then some .null
  else if cs = ['t', 'r', 'u', 'e'] then some (.bool true)
  else if cs = ['f', 'a', 'l', 's', 'e'] then some (.bool false)
  else if isInteger cs then some (.nat (digitsValue cs))
  else
    match cs with
    | '-' :: rest => if isUnsigned rest then some (.number (String.ofList cs)) else none
    | _ => if isUnsigned cs then some (.number (String.ofList cs)) else none

/-! ### Strings -/

/-- Where a string stands inside an escape. -/
inductive Escape where
  /-- Not in an escape. -/
  | outside
  /-- After a backslash. -/
  | started
  /-- After the letter of a numeric escape: digits read, and their value. -/
  | numeric (digits value : Nat)

/-- A string that is being read. -/
structure PartialString where
  /-- The characters read, last first. -/
  chars : List Char := []
  escape : Escape := .outside
  /-- The first half of a surrogate pair, waiting for the second. -/
  half : Option Nat := none
  /-- Every escape so far spells a character. -/
  sound : Bool := true

/-- Add a character; a waiting half of a pair is then broken. -/
def PartialString.push (p : PartialString) (c : Char) : PartialString :=
  { chars := c :: p.chars, sound := p.sound && p.half.isNone }

/-- Add the code unit of a numeric escape. -/
def PartialString.pushUnit (p : PartialString) (unit : Nat) : PartialString :=
  let isHigh := 0xD800 ≤ unit && unit ≤ 0xDBFF
  let isLow := 0xDC00 ≤ unit && unit ≤ 0xDFFF
  match p.half with
  | some high =>
      if isLow then
        { chars := Char.ofNat (0x10000 + (high - 0xD800) * 0x400 + (unit - 0xDC00)) :: p.chars
          sound := p.sound }
      else { chars := p.chars, sound := false }
  | none =>
      if isHigh then { chars := p.chars, sound := p.sound, half := some unit }
      else if isLow then { chars := p.chars, sound := false }
      else p.push (Char.ofNat unit)

def hexValue? (c : Char) : Option Nat :=
  if '0' ≤ c ∧ c ≤ '9' then some (c.toNat - '0'.toNat)
  else if 'a' ≤ c ∧ c ≤ 'f' then some (c.toNat - 'a'.toNat + 10)
  else if 'A' ≤ c ∧ c ≤ 'F' then some (c.toNat - 'A'.toNat + 10)
  else none

def escaped? (c : Char) : Option Char :=
  if c = '"' then some '"'
  else if c = '\\' then some '\\'
  else if c = '/' then some '/'
  else if c = 'b' then some (Char.ofNat 8)
  else if c = 'f' then some (Char.ofNat 12)
  else if c = 'n' then some '\n'
  else if c = 'r' then some '\r'
  else if c = 't' then some '\t'
  else none

/-- The text of a string whose end was read; `none` when it spells none. -/
def PartialString.finish (p : PartialString) : Option String :=
  if p.sound && p.half.isNone then some (String.ofList p.chars.reverse) else none

/-! ### Building values -/

/-- An open list or object. -/
inductive Frame where
  /-- The items of a list, last first. -/
  | list (items : List Json)
  /-- The fields of an object, last first, and the key that waits for its value. -/
  | object (fields : List (Option String × Json)) (key : Option String)

/-- What may come next. -/
inductive Expect where
  /-- A value. -/
  | value
  /-- A value or the end of the list just opened. -/
  | valueOrClose
  /-- A key or the end of the object just opened. -/
  | keyOrClose
  /-- A key. -/
  | key
  /-- A colon. -/
  | colon
  /-- A comma or the end of the innermost list or object. -/
  | more
  /-- Nothing: the value is complete. -/
  | done (value : Json)

structure Builder where
  stack : List Frame := []
  expect : Expect := .value

namespace Builder

def accept (b : Builder) (value : Json) : Builder :=
  match b.stack with
  | [] => ⟨[], .done value⟩
  | .list items :: rest => ⟨.list (value :: items) :: rest, .more⟩
  | .object fields key :: rest => ⟨.object ((key, value) :: fields) none :: rest, .more⟩

def wantsValue (b : Builder) : Bool :=
  match b.expect with
  | .value => true
  | .valueOrClose => true
  | _ => false

def closeList? (b : Builder) : Option Builder :=
  match b.stack with
  | .list items :: rest => some (accept ⟨rest, .value⟩ (.list items.reverse))
  | _ => none

def closeObject? (b : Builder) : Option Builder :=
  match b.stack with
  | .object fields _ :: rest => some (accept ⟨rest, .value⟩ (.object fields.reverse))
  | _ => none

def takeKey? (b : Builder) (key : Option String) : Option Builder :=
  match b.stack with
  | .object fields _ :: rest => some ⟨.object fields key :: rest, .colon⟩
  | _ => none

def takeComma? (b : Builder) : Option Builder :=
  match b.stack with
  | .list items :: rest => some ⟨.list items :: rest, .value⟩
  | .object fields key :: rest => some ⟨.object fields key :: rest, .key⟩
  | [] => none

def step (b : Builder) : Token → Option Builder
  | .openObject =>
      if b.wantsValue then some ⟨.object [] none :: b.stack, .keyOrClose⟩ else none
  | .openList => if b.wantsValue then some ⟨.list [] :: b.stack, .valueOrClose⟩ else none
  | .closeObject =>
      match b.expect with
      | .keyOrClose => b.closeObject?
      | .more => b.closeObject?
      | _ => none
  | .closeList =>
      match b.expect with
      | .valueOrClose => b.closeList?
      | .more => b.closeList?
      | _ => none
  | .colon =>
      match b.expect with
      | .colon => some { b with expect := .value }
      | _ => none
  | .comma =>
      match b.expect with
      | .more => b.takeComma?
      | _ => none
  | .str s =>
      match b.expect with
      | .keyOrClose => b.takeKey? s
      | .key => b.takeKey? s
      | _ =>
          if b.wantsValue then
            some (b.accept (match s with | some spelled => .text spelled | none => .broken))
          else none
  | .leaf value => if b.wantsValue then some (b.accept value) else none

end Builder

/-! ### Scanning -/

/-- What the scanner is inside of. -/
inductive Mode where
  /-- Between tokens. -/
  | gap
  /-- Inside a string. -/
  | str (p : PartialString)
  /-- Inside a word, whose characters are kept last first. -/
  | word (chars : List Char)

structure Reader where
  mode : Mode := .gap
  builder : Builder := {}

namespace Reader

/-- The characters that may stand between tokens. -/
def isSpace (c : Char) : Bool :=
  c == ' ' || c == '\n' || c == '\t' || c == '\r'

def punctuation? (c : Char) : Option Token :=
  if c = '\x7b' then some .openObject
  else if c = '\x7d' then some .closeObject
  else if c = '[' then some .openList
  else if c = ']' then some .closeList
  else if c = ':' then some .colon
  else if c = ',' then some .comma
  else none

/-- Take a character between tokens. -/
def stepGap (b : Builder) (c : Char) : Option Reader :=
  if isSpace c then some ⟨.gap, b⟩
  else if c = '"' then some ⟨.str {}, b⟩
  else
    match punctuation? c with
    | some token => (b.step token).map fun b => ⟨.gap, b⟩
    | none => some ⟨.word [c], b⟩

def endWord (b : Builder) (chars : List Char) : Option Builder :=
  (wordValue? chars.reverse).bind fun value => b.step (.leaf value)

/-- Take a character inside a string. -/
def stepString (b : Builder) (p : PartialString) (c : Char) : Option Reader :=
  match p.escape with
  | .outside =>
      if c = '"' then (b.step (.str p.finish)).map fun b => ⟨.gap, b⟩
      else if c = '\\' then some ⟨.str { p with escape := .started }, b⟩
      else if c.toNat < 0x20 then none
      else some ⟨.str (p.push c), b⟩
  | .started =>
      if c = 'u' then some ⟨.str { p with escape := .numeric 0 0 }, b⟩
      else (escaped? c).map fun c => ⟨.str { p.push c with escape := .outside }, b⟩
  | .numeric digits value =>
      (hexValue? c).map fun digit =>
        let value := 16 * value + digit
        if digits = 3 then ⟨.str { p.pushUnit value with escape := .outside }, b⟩
        else ⟨.str { p with escape := .numeric (digits + 1) value }, b⟩

def step (r : Reader) (c : Char) : Option Reader :=
  match r.mode with
  | .gap => stepGap r.builder c
  | .str p => stepString r.builder p c
  | .word chars =>
      if isSpace c || c == '"' || (punctuation? c).isSome then
        (endWord r.builder chars).bind fun b => stepGap b c
      else some { r with mode := .word (c :: chars) }

/-- The value, once the text has ended. -/
def finish (r : Reader) : Option Json :=
  let builder :=
    match r.mode with
    | .gap => some r.builder
    | .str _ => none
    | .word chars => endWord r.builder chars
  builder.bind fun b =>
    match b.expect with
    | .done value => some value
    | _ => none

end Reader

def parse? (text : String) : Option Json :=
  (text.toList.foldlM Reader.step ({} : Reader)).bind Reader.finish

end Rebuild.Json
