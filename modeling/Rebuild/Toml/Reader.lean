import Rebuild.Toml.Scalar
import Rebuild.Toml.Value

/-!
# Reading TOML

Each reader takes the characters that are left and returns what it read with the rest, or fails.
Arrays and inline tables nest to a limited depth; the length of the text serves as fuel.

* `readString?`: the four kinds of strings;
* `readKey?`: a key, possibly dotted;
* `readValue?`: any value;
* `Toml.parse?`: a document.

Inline tables may span lines and end with a comma, and the escapes include `\e` and `\x`.
-/

namespace Rebuild.Toml

/-- What a reader returns. -/
abbrev Step (α : Type) := Option (α × List Char)

/-! ### Blanks, comments and line ends -/

def isSpace (c : Char) : Bool :=
  c == ' ' || c == '\t'

def skipSpace (cs : List Char) : List Char :=
  cs.dropWhile isSpace

/-- A control character that may not occur in comments and strings. -/
def isForbidden (c : Char) : Bool :=
  (c.toNat < 0x20 && c != '\t') || c.toNat == 0x7F

/-- Drop a comment up to the end of the line. -/
def skipComment? : List Char → Option (List Char)
  | [] => some []
  | c :: rest =>
      if c = '\n' then some (c :: rest)
      else if c = '\r' ∧ rest.head? = some '\n' then some (c :: rest)
      else if isForbidden c then none
      else skipComment? rest

/-- Drop the end of a line: blanks, an optional comment, and a line break or the end of the text. -/
def endLine? (cs : List Char) : Option (List Char) :=
  let cs := skipSpace cs
  let cs := if cs.head? = some '#' then skipComment? cs else some cs
  match cs with
  | some [] => some []
  | some ('\n' :: rest) => some rest
  | some ('\r' :: '\n' :: rest) => some rest
  | _ => none

/-- Drop blanks, line breaks and comments; `comment` says that a comment is being dropped. -/
def skipLayoutFrom (comment : Bool) : List Char → Option (List Char)
  | [] => some []
  | c :: rest =>
      if c = '\n' then skipLayoutFrom false rest
      else if c = '\r' then
        match rest with
        | '\n' :: rest => skipLayoutFrom false rest
        | _ => none
      else if comment then if isForbidden c then none else skipLayoutFrom true rest
      else if isSpace c then skipLayoutFrom false rest
      else if c = '#' then skipLayoutFrom true rest
      else some (c :: rest)

/-- Drop blanks, line breaks and comments. -/
def skipLayout? (cs : List Char) : Option (List Char) :=
  skipLayoutFrom false cs

/-! ### Strings -/

def hexValue? (cs : List Char) : Option Nat :=
  cs.foldlM (fun n c =>
    if c.isDigit then some (16 * n + (c.toNat - '0'.toNat))
    else if 'a' ≤ c && c ≤ 'f' then some (16 * n + (c.toNat - 'a'.toNat + 10))
    else if 'A' ≤ c && c ≤ 'F' then some (16 * n + (c.toNat - 'A'.toNat + 10))
    else none) 0

/-- The character with a code point given in hexadecimal digits. -/
def codePoint? (cs : List Char) : Option Char :=
  (hexValue? cs).bind fun n =>
    if n.isValidChar then some (Char.ofNat n) else none

def escaped? (c : Char) : Option Char :=
  if c = 'b' then some (Char.ofNat 8)
  else if c = 't' then some '\t'
  else if c = 'n' then some '\n'
  else if c = 'f' then some (Char.ofNat 12)
  else if c = 'r' then some '\r'
  else if c = 'e' then some (Char.ofNat 27)
  else if c = '"' then some '"'
  else if c = '\\' then some '\\'
  else none

def readEscape? : List Char → Step Char
  | [] => none
  | c :: rest =>
      let digits := if c = 'x' then 2 else if c = 'u' then 4 else if c = 'U' then 8 else 0
      if digits = 0 then (escaped? c).map fun e => (e, rest)
      else if (rest.take digits).length = digits then
        (codePoint? (rest.take digits)).map fun e => (e, rest.drop digits)
      else none

/-- What is left after the blanks and line breaks that a backslash at the end of a line takes
along. -/
def skipFold : List Char → List Char
  | [] => []
  | c :: rest => if isSpace c || c == '\n' || c == '\r' then skipFold rest else c :: rest

/-- Whether a line ends here, blanks aside. -/
def endsLine (cs : List Char) : Bool :=
  match skipSpace cs with
  | '\n' :: _ => true
  | '\r' :: '\n' :: _ => true
  | _ => false

/-- Read a basic string; `multi` when it may span lines.  `read` holds the characters so far, last
first. -/
def readBasic? (multi : Bool) : Nat → List Char → List Char → Step String
  | 0, _, _ => none
  | _, _, [] => none
  | fuel + 1, read, c :: rest =>
      if c = '"' then
        if multi then
          match rest with
          | '"' :: '"' :: '"' :: '"' :: rest =>
              some (String.ofList ('"' :: '"' :: read).reverse, rest)
          | '"' :: '"' :: '"' :: rest => some (String.ofList ('"' :: read).reverse, rest)
          | '"' :: '"' :: rest => some (String.ofList read.reverse, rest)
          | rest => readBasic? multi fuel ('"' :: read) rest
        else some (String.ofList read.reverse, rest)
      else if c = '\\' then
        if multi && endsLine rest then readBasic? multi fuel read (skipFold rest)
        else
          match readEscape? rest with
          | none => none
          | some (e, rest) => readBasic? multi fuel (e :: read) rest
      else if multi && c == '\n' then readBasic? multi fuel (c :: read) rest
      else if multi && c == '\r' && rest.head? == some '\n' then readBasic? multi fuel read rest
      else if isForbidden c then none
      else readBasic? multi fuel (c :: read) rest

/-- Read a literal string; `multi` when it may span lines. -/
def readLiteral? (multi : Bool) (read : List Char) : List Char → Step String
  | [] => none
  | c :: rest =>
      if c = '\x27' then
        if multi then
          match rest with
          | '\x27' :: '\x27' :: '\x27' :: '\x27' :: rest =>
              some (String.ofList ('\x27' :: '\x27' :: read).reverse, rest)
          | '\x27' :: '\x27' :: '\x27' :: rest =>
              some (String.ofList ('\x27' :: read).reverse, rest)
          | '\x27' :: '\x27' :: rest => some (String.ofList read.reverse, rest)
          | rest => readLiteral? multi ('\x27' :: read) rest
        else some (String.ofList read.reverse, rest)
      else if multi && c == '\n' then readLiteral? multi (c :: read) rest
      else if multi && c == '\r' && rest.head? == some '\n' then readLiteral? multi read rest
      else if isForbidden c then none
      else readLiteral? multi (c :: read) rest

/-- Drop a line break at the beginning of a string that spans lines. -/
def dropBreak : List Char → List Char
  | '\n' :: rest => rest
  | '\r' :: '\n' :: rest => rest
  | cs => cs

def readString? (cs : List Char) : Step String :=
  match cs with
  | '"' :: '"' :: '"' :: rest => readBasic? true (rest.length + 1) [] (dropBreak rest)
  | '"' :: rest => readBasic? false (rest.length + 1) [] rest
  | '\x27' :: '\x27' :: '\x27' :: rest => readLiteral? true [] (dropBreak rest)
  | '\x27' :: rest => readLiteral? false [] rest
  | _ => none

/-! ### Keys -/

def isBareKey (c : Char) : Bool :=
  c.isAlphanum || c == '_' || c == '-'

def readSimpleKey? (cs : List Char) : Step String :=
  match cs with
  | '"' :: rest => readBasic? false (rest.length + 1) [] rest
  | '\x27' :: rest => readLiteral? false [] rest
  | cs =>
      let bare := cs.takeWhile isBareKey
      if bare.isEmpty then none else some (String.ofList bare, cs.dropWhile isBareKey)

/-- Read a key, possibly dotted, with blanks around its parts. -/
def readKey? : Nat → List Char → Step (List String)
  | 0, _ => none
  | fuel + 1, cs =>
      match readSimpleKey? (skipSpace cs) with
      | none => none
      | some (key, rest) =>
          match skipSpace rest with
          | '.' :: rest => (readKey? fuel rest).map fun more => (key :: more.1, more.2)
          | rest => some ([key], rest)

/-! ### Values -/

def endsBare (c : Char) : Bool :=
  isSpace c || c == '\n' || c == '\r' || c == ',' || c == ']' || c == '\x7d' || c == '#'

/-- Read a bare value; a date may be followed by a blank and a time. -/
def readBare? (cs : List Char) : Step Toml :=
  let word := cs.takeWhile (!endsBare ·)
  let rest := cs.dropWhile (!endsBare ·)
  if word = ['t', 'r', 'u', 'e'] then some (.bool true, rest)
  else if word = ['f', 'a', 'l', 's', 'e'] then some (.bool false, rest)
  else
    match rest with
    | ' ' :: next =>
        if isDate word && next.head?.any Char.isDigit then
          let time := next.takeWhile (!endsBare ·)
          if isOffsetTime time then some (.scalar, next.dropWhile (!endsBare ·)) else none
        else if isScalar word then some (.scalar, rest)
        else none
    | rest => if isScalar word then some (.scalar, rest) else none

/-- How deep arrays and inline tables may nest. -/
def maxDepth : Nat := 80

mutual

/-- Read a value, in which arrays and inline tables may nest `depth` levels deep. -/
def readValue? : Nat → Nat → List Char → Step Toml
  | 0, _, _ => none
  | fuel + 1, depth, cs =>
      match cs with
      | [] => none
      | '[' :: rest => if depth = 0 then none else readItems? fuel (depth - 1) [] rest
      | '\x7b' :: rest => if depth = 0 then none else readPairs? fuel (depth - 1) [] rest
      | '"' :: _ => (readString? cs).map fun found => (.text found.1, found.2)
      | '\x27' :: _ => (readString? cs).map fun found => (.text found.1, found.2)
      | cs => readBare? cs

/-- Read the items of an array up to its end; `items` holds those read, last first. -/
def readItems? : Nat → Nat → List Toml → List Char → Step Toml
  | 0, _, _, _ => none
  | fuel + 1, depth, items, cs =>
      match skipLayout? cs with
      | none => none
      | some (']' :: rest) => some (.list items.reverse, rest)
      | some cs =>
          match readValue? fuel depth cs with
          | none => none
          | some (item, rest) =>
              match skipLayout? rest with
              | some (',' :: rest) => readItems? fuel depth (item :: items) rest
              | some (']' :: rest) => some (.list (item :: items).reverse, rest)
              | _ => none

/-- Read the entries of an inline table up to its end. -/
def readPairs? : Nat → Nat → Entries → List Char → Step Toml
  | 0, _, _, _ => none
  | fuel + 1, depth, entries, cs =>
      match skipLayout? cs with
      | none => none
      | some ('\x7d' :: rest) => some (.table .inline entries, rest)
      | some cs =>
          match readKey? (cs.length + 1) cs with
          | some (keys, '=' :: rest) =>
              match readValue? fuel depth (skipSpace rest) with
              | none => none
              | some (value, rest) =>
                  match keys.getLast?.bind fun key => assign keys.dropLast key value entries with
                  | none => none
                  | some entries =>
                      match skipLayout? rest with
                      | some (',' :: rest) => readPairs? fuel depth entries rest
                      | some ('\x7d' :: rest) => some (.table .inline entries, rest)
                      | _ => none
          | _ => none

end

/-! ### Documents -/

/-- A document that is being read: its entries and the path of the current header. -/
structure PartialDocument where
  entries : Entries := []
  header : List String := []

/-- Read a header, after its opening bracket. -/
def readHeader? (d : PartialDocument) (cs : List Char) : Step PartialDocument :=
  let isArray := cs.head? == some '['
  let cs := if isArray then cs.drop 1 else cs
  match readKey? (cs.length + 1) cs with
  | some (keys, ']' :: rest) =>
      let change := fun key => if isArray then openRow key else openTable key
      let closed :=
        if isArray then
          match rest with
          | ']' :: rest => some rest
          | _ => none
        else some rest
      match closed, keys.getLast? with
      | some rest, some key =>
          (updateAt keys.dropLast (change key) d.entries).map fun entries =>
            (⟨entries, keys⟩, rest)
      | _, _ => none
  | _ => none

def readAssignment? (d : PartialDocument) (cs : List Char) : Step PartialDocument :=
  match readKey? (cs.length + 1) cs with
  | some (keys, '=' :: rest) =>
      match readValue? (2 * rest.length + 2) maxDepth (skipSpace rest) with
      | none => none
      | some (value, rest) =>
          match keys.getLast? with
          | none => none
          | some key =>
              (updateAt d.header (assign keys.dropLast key value) d.entries).map fun entries =>
                ({ d with entries }, rest)
  | _ => none

def readLines? : Nat → PartialDocument → List Char → Option Entries
  | 0, _, _ => none
  | fuel + 1, d, cs =>
      match skipLayout? cs with
      | none => none
      | some [] => some d.entries
      | some (c :: rest) =>
          let step := if c = '[' then readHeader? d rest else readAssignment? d (c :: rest)
          match step with
          | none => none
          | some (d, rest) =>
              match endLine? rest with
              | none => none
              | some rest => readLines? fuel d rest

def dropMark : List Char → List Char
  | [] => []
  | c :: rest => if c.toNat = 0xFEFF then rest else c :: rest

def parse? (text : String) : Option Entries :=
  let cs := dropMark text.toList
  readLines? (cs.length + 1) {} cs

end Rebuild.Toml
