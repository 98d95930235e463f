/-!
# JSON values

A value keeps the fields of its objects in order, repeats included.  Two kinds of leaves stand for
text that is well formed but cannot be taken as it is:

* `Json.number`: a number that is not a natural number, kept as written;
* `Json.broken`: a string whose escapes name half of a surrogate pair and so spell no text.  An
  object key of this kind is `none`.

Typed reading takes a record as an object or as a list of its fields in order:

* in an object, fields that the record does not have are ignored, a field of the record may occur
  once only, and every key must spell a text;
* in a list, fields may be missing at the end only, and there may be no further items.

A field that is missing takes its default, if it has one.  An alternative without content is
written as its name, or as an object that maps its name to null.

There are two layouts: `Json.compact` puts no space anywhere, `Json.pretty` puts every item and field
on a line of its own, indented by two spaces, and writes empty lists and objects closed.  In strings
only the quote, the backslash and the control characters below the space are escaped.
-/

namespace Rebuild

inductive Json where
  | null
  | bool (b : Bool)
  /-- A number written as digits only. -/
  | nat (n : Nat)
  /-- Any other number, as written. -/
  | number (written : String)
  | text (s : String)
  /-- A string that spells no text. -/
  | broken
  | list (items : List Json)
  /-- The fields in order; the key is `none` for a string that spells no text. -/
  | object (fields : List (Option String × Json))
  deriving Repr, Inhabited

namespace Json

/-- An object from keys and values. -/
def record (fields : List (String × Json)) : Json :=
  .object (fields.map fun field => (some field.1, field.2))

/-- The first field with a key. -/
def field? (j : Json) (key : String) : Option Json :=
  match j with
  | .object fields => (fields.find? fun field => field.1 == some key).map (·.2)
  | _ => none

/-! ### Shapes -/

/-- The items with a given key. -/
def valuesOf (key : String) (fields : List (Option String × Json)) : List Json :=
  (fields.filter fun field => field.1 == some key).map (·.2)

/-- The value of each named field of a record, `none` where it is missing. -/
def fields? (names : List String) : Json → Option (List (Option Json))
  | .object fields =>
      if fields.all (·.1.isSome) then
        names.mapM fun name =>
          match valuesOf name fields with
          | [] => some none
          | [value] => some (some value)
          | _ => none
      else none
  | .list items =>
      if items.length ≤ names.length then
        some (items.map some ++ List.replicate (names.length - items.length) none)
      else none
  | _ => none

/-- A field that must be there. -/
def required {α : Type} (read : Json → Option α) (field : Option Json) : Option α :=
  field.bind read

/-- A field with a default. -/
def withDefault {α : Type} (default : α) (read : Json → Option α) : Option Json → Option α
  | none => some default
  | some value => read value

def text? : Json → Option String
  | .text s => some s
  | _ => none

def bool? : Json → Option Bool
  | .bool b => some b
  | _ => none

def natBelow? (bound : Nat) : Json → Option Nat
  | .nat n => if n < bound then some n else none
  | _ => none

/-- A number of 32 bits. -/
def word? : Json → Option Nat :=
  natBelow? 4294967296

/-- A number of 64 bits. -/
def long? : Json → Option Nat :=
  natBelow? 18446744073709551616

/-- Null, or a value of some shape. -/
def nullable? {α : Type} (read : Json → Option α) : Json → Option (Option α)
  | .null => some none
  | value => (read value).map some

def list? {α : Type} (read : Json → Option α) : Json → Option (List α)
  | .list items => items.mapM read
  | _ => none

/-- A list of exactly two items. -/
def pair? {α β : Type} (first : Json → Option α) (second : Json → Option β) :
    Json → Option (α × β)
  | .list [a, b] => do return (← first a, ← second b)
  | _ => none

/-- One of several named alternatives without content. -/
def alternative? {α : Type} (names : List (String × α)) : Json → Option α
  | .text s => names.lookup s
  | .object [(some s, .null)] => names.lookup s
  | _ => none

/-! ### Layouts -/

/-- The escaped form of one character of a string. -/
def escapeChar (c : Char) : List Char :=
  if c = '"' then ['\\', '"']
  else if c = '\\' then ['\\', '\\']
  else if c = '\n' then ['\\', 'n']
  else if c = '\r' then ['\\', 'r']
  else if c = '\t' then ['\\', 't']
  else if c.toNat = 8 then ['\\', 'b']
  else if c.toNat = 12 then ['\\', 'f']
  else if c.toNat < 0x20 then
    ['\\', 'u', '0', '0', Nat.digitChar (c.toNat / 16), Nat.digitChar (c.toNat % 16)]
  else [c]

def quoted (s : String) : List Char :=
  '"' :: s.toList.flatMap escapeChar ++ ['"']

def natText (n : Nat) : List Char :=
  Nat.toDigits 10 n

/-- A key; one that spells no text is written empty. -/
def keyText (key : Option String) : List Char :=
  quoted (key.getD "")

mutual

/-- The compact layout of a value. -/
def compactChars : Json → List Char
  | .null => ['n', 'u', 'l', 'l']
  | .bool true => ['t', 'r', 'u', 'e']
  | .bool false => ['f', 'a', 'l', 's', 'e']
  | .nat n => natText n
  | .number written => written.toList
  | .text s => quoted s
  | .broken => quoted ""
  | .list [] => ['[', ']']
  | .list (item :: items) => '[' :: compactChars item ++ compactItems items ++ [']']
  | .object [] => ['\x7b', '\x7d']
  | .object (field :: fields) =>
      '\x7b' :: keyText field.1 ++ ':' :: compactChars field.2 ++ compactFields fields ++ ['\x7d']

/-- The further items of a list. -/
def compactItems : List Json → List Char
  | [] => []
  | item :: items => ',' :: compactChars item ++ compactItems items

/-- The further fields of an object. -/
def compactFields : List (Option String × Json) → List Char
  | [] => []
  | field :: fields =>
      ',' :: keyText field.1 ++ ':' :: compactChars field.2 ++ compactFields fields

end

/-- The start of a line at an indentation depth. -/
def newline (depth : Nat) : List Char :=
  '\n' :: List.replicate (2 * depth) ' '

mutual

/-- The pretty layout of a value that stands at an indentation depth. -/
def prettyChars (depth : Nat) : Json → List Char
  | .null => ['n', 'u', 'l', 'l']
  | .bool true => ['t', 'r', 'u', 'e']
  | .bool false => ['f', 'a', 'l', 's', 'e']
  | .nat n => natText n
  | .number written => written.toList
  | .text s => quoted s
  | .broken => quoted ""
  | .list [] => ['[', ']']
  | .list (item :: items) =>
      '[' :: newline (depth + 1) ++ prettyChars (depth + 1) item ++ prettyItems (depth + 1) items
        ++ newline depth ++ [']']
  | .object [] => ['\x7b', '\x7d']
  | .object (field :: fields) =>
      '\x7b' :: newline (depth + 1) ++ keyText field.1 ++ ':' :: ' '
        :: prettyChars (depth + 1) field.2 ++ prettyFields (depth + 1) fields
        ++ newline depth ++ ['\x7d']

/-- The further items of a list. -/
def prettyItems (depth : Nat) : List Json → List Char
  | [] => []
  | item :: items => ',' :: newline depth ++ prettyChars depth item ++ prettyItems depth items

/-- The further fields of an object. -/
def prettyFields (depth : Nat) : List (Option String × Json) → List Char
  | [] => []
  | field :: fields =>
      ',' :: newline depth ++ keyText field.1 ++ ':' :: ' ' :: prettyChars depth field.2
        ++ prettyFields depth fields

end

def compact (j : Json) : String :=
  String.ofList (compactChars j)

def pretty (j : Json) : String :=
  String.ofList (prettyChars 0 j)

end Json

end Rebuild
