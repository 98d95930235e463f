/-!
# Blank characters, words and lines

A character is *blank* when it has the Unicode property `White_Space`.  This file holds the
text operations that only look at blanks and line ends:

* `isBlank`: the property itself, as a closed list of ranges;
* `trimStart`, `trimEnd`, `trim`: drop blanks at the ends;
* `words`: the maximal runs of non-blank characters;
* `lines`: the lines of a text, without their line ends.

Everything works on lists of characters.
-/

namespace Rebuild.Text

/-- The ranges of code points with the property `White_Space`. -/
def blankRanges : List (Nat × Nat) :=
  [(0x09, 0x0D), (0x20, 0x20), (0x85, 0x85), (0xA0, 0xA0), (0x1680, 0x1680), (0x2000, 0x200A),
    (0x2028, 0x2029), (0x202F, 0x202F), (0x205F, 0x205F), (0x3000, 0x3000)]

def inRanges (ranges : List (Nat × Nat)) (n : Nat) : Bool :=
  ranges.any fun r => r.1 ≤ n && n ≤ r.2

/-- A blank is a character with the property `White_Space`. -/
def isBlank (c : Char) : Bool :=
  inRanges blankRanges c.toNat

def trimStart (s : List Char) : List Char :=
  s.dropWhile isBlank

def trimEnd (s : List Char) : List Char :=
  (s.reverse.dropWhile isBlank).reverse

def trim (s : List Char) : List Char :=
  trimEnd (trimStart s)

/-- Collect words; `word` holds, reversed, the word being read. -/
def wordsFrom (word : List Char) : List Char → List (List Char)
  | [] => if word.isEmpty then [] else [word.reverse]
  | c :: rest =>
      if isBlank c then
        if word.isEmpty then wordsFrom [] rest else word.reverse :: wordsFrom [] rest
      else wordsFrom (c :: word) rest

/-- The maximal runs of non-blank characters, in order. -/
def words (s : List Char) : List (List Char) :=
  wordsFrom [] s

/-- Drop one carriage return at the end of a line that is kept reversed. -/
def dropReturn : List Char → List Char
  | '\r' :: rest => rest
  | line => line

/-- Collect lines; `line` holds, reversed, the line being read. -/
def linesFrom (line : List Char) : List Char → List (List Char)
  | [] => if line.isEmpty then [] else [line.reverse]
  | c :: rest =>
      if c = '\n' then (dropReturn line).reverse :: linesFrom [] rest
      else linesFrom (c :: line) rest

/-- The lines of a text.  A line ends with a line feed, which takes one carriage return before it
along; a last line without a line feed counts when it is not empty and keeps its carriage return. -/
def lines (s : List Char) : List (List Char) :=
  linesFrom [] s

/-- Split at every occurrence of a separator; there is always at least one piece. -/
def splitOn (sep : Char) : List Char → List (List Char)
  | [] => [[]]
  | c :: rest =>
      if c = sep then [] :: splitOn sep rest
      else
        match splitOn sep rest with
        | [] => [[c]]
        | piece :: pieces => (c :: piece) :: pieces

/-- Join pieces, putting a separator between neighbours. -/
def join (sep : List Char) : List (List Char) → List Char
  | [] => []
  | [piece] => piece
  | piece :: pieces => piece ++ sep ++ join sep pieces

end Rebuild.Text
