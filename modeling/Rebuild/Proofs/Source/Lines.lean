import Rebuild.Proofs.Project.Body

/-!
# Texts are read line by line

What a line says does not depend on the lines around it.  So a text that is put together from two, with a
line feed between them, says what the two say, with the line numbers of the second one moved on.

* `Text.lines_append_newline`: the lines of two texts with a line feed between them;
* `Source.Contents.shift`, `++`: contents with their line numbers moved on, and one after the other;
* `Source.Contents.parse_newline_between`: what the two texts say together;
* `Source.Contents.mem_items_parse`: what a text says is what its lines say, each in its place;
* `Source.Contents.parse_line_local`: both together.
-/

namespace Rebuild

/-! ### Lines -/

namespace Text

variable {line found : List Char}

/-- A line feed ends the line before it. -/
theorem linesFrom_append_newline (line a b : List Char) :
    linesFrom line (a ++ '\n' :: b) = linesFrom line (a ++ ['\n']) ++ lines b := by
  induction a generalizing line with
  | nil => rfl
  | cons c a ih =>
      rw [List.cons_append, List.cons_append, linesFrom, linesFrom]
      split
      · rw [ih, List.cons_append]
      · exact ih _

theorem lines_append_newline (a b : List Char) : lines (a ++ '\n' :: b) = lines (a ++ ['\n']) ++ lines b :=
  linesFrom_append_newline [] a b

/-- A text and the line feed behind it have as many lines as there are line feeds. -/
theorem length_linesFrom_newline (line a : List Char) :
    (linesFrom line (a ++ ['\n'])).length = a.count '\n' + 1 := by
  induction a generalizing line with
  | nil => rfl
  | cons c a ih =>
      rw [List.cons_append, linesFrom]
      split
      · rename_i hc
        rw [List.length_cons, ih, hc, List.count_cons_self]
      · rename_i hc
        rw [ih, List.count_cons_of_ne hc]

theorem mem_of_mem_dropReturn {c : Char} (hmem : c ∈ dropReturn line) : c ∈ line := by
  rw [dropReturn.eq_def] at hmem
  split at hmem
  · exact List.mem_cons_of_mem _ hmem
  · exact hmem

theorem dropReturn_of_head? (hline : line.head? ≠ some '\r') : dropReturn line = line := by
  rw [dropReturn.eq_def]
  split
  · exact absurd rfl hline
  · rfl

/-- A line feed behind a text ends its last line, or makes an empty one.  No carriage return may go with it. -/
theorem linesFrom_newline (a : List Char) (hend : (line.reverse ++ a).getLast? ≠ some '\r') :
    linesFrom line (a ++ ['\n']) = linesFrom line a
      ∨ linesFrom line (a ++ ['\n']) = linesFrom line a ++ [[]] := by
  induction a generalizing line with
  | nil =>
      have hhead : line.head? ≠ some '\r' := by simpa using hend
      have hlines : linesFrom line ([] ++ ['\n']) = [line.reverse] := by
        rw [List.nil_append, linesFrom, if_pos rfl, dropReturn_of_head? hhead]
        rfl
      rw [hlines, linesFrom]
      cases line with
      | nil => exact .inr rfl
      | cons c line => exact .inl rfl
  | cons c a ih =>
      rw [List.cons_append, linesFrom, linesFrom]
      split
      · rename_i hc
        have hend' : ([].reverse ++ a).getLast? ≠ some '\r' := by
          intro hlast
          refine hend ?_
          rw [List.reverse_nil, List.nil_append] at hlast
          rw [List.getLast?_append, List.getLast?_cons, hlast]
          rfl
        rcases ih hend' with hsame | hmore
        · exact .inl (by rw [hsame])
        · exact .inr (by rw [hmore, List.cons_append])
      · refine ih ?_
        rwa [List.reverse_cons, List.append_assoc]

/-- Lines hold no line feed. -/
theorem newline_notMem_of_mem_linesFrom {cs : List Char} (hfree : '\n' ∉ line)
    (hmem : found ∈ linesFrom line cs) : '\n' ∉ found := by
  induction cs generalizing line with
  | nil =>
      rw [linesFrom] at hmem
      split at hmem
      · cases hmem
      · rw [List.mem_singleton.mp hmem]
        simpa using hfree
  | cons c cs ih =>
      rw [linesFrom] at hmem
      split at hmem
      · rcases List.mem_cons.mp hmem with rfl | hlater
        · rw [List.mem_reverse]
          exact fun hnewline => hfree (mem_of_mem_dropReturn hnewline)
        · exact ih List.not_mem_nil hlater
      · rename_i hc
        exact ih (List.not_mem_cons_of_ne_of_not_mem (Ne.symm hc) hfree) hmem

/-- A text without a line feed is one line, unless it is empty. -/
theorem linesFrom_of_newline_notMem {cs : List Char} (hfree : '\n' ∉ cs) :
    linesFrom line cs = if (line.reverse ++ cs).isEmpty then [] else [line.reverse ++ cs] := by
  induction cs generalizing line with
  | nil => rw [linesFrom, List.append_nil, List.isEmpty_reverse]
  | cons c cs ih =>
      rw [List.mem_cons, not_or] at hfree
      rw [linesFrom, if_neg (Ne.symm hfree.1), ih hfree.2]
      simp

end Text

/-! ### Contents -/

namespace Source

def Import.shift (n : Nat) (i : Import) : Import :=
  { i with line := i.line + n }

def Export.shift (n : Nat) : Export → Export
  | .declared kind name shape line => .declared kind name shape (line + n)
  | .inferred name source member line => .inferred name source member (line + n)

def UseSite.shift (n : Nat) (site : UseSite) : UseSite :=
  { site with line := site.line + n }

def Directive.shift (n : Nat) (d : Directive) : Directive :=
  { d with line := d.line + n }

/-- One of the things that a unit text says. -/
inductive Item where
  | import_ (i : Import)
  | export_ (e : Export)
  | use (site : UseSite)
  | directive (d : Directive)
  deriving Repr, DecidableEq

def Item.line : Item → Nat
  | .import_ i => i.line
  | .export_ e => e.line
  | .use site => site.line
  | .directive d => d.line

namespace Contents

variable {n : Nat} {text : String} {line : List Char} {item : Item}

def shift (n : Nat) (c : Contents) : Contents where
  imports := c.imports.map (·.shift n)
  exports := c.exports.map (·.shift n)
  declaresGlobal := c.declaresGlobal
  uses := c.uses.map (·.shift n)
  directives := c.directives.map (·.shift n)

def append (c d : Contents) : Contents where
  imports := c.imports ++ d.imports
  exports := c.exports ++ d.exports
  declaresGlobal := c.declaresGlobal || d.declaresGlobal
  uses := c.uses ++ d.uses
  directives := c.directives ++ d.directives

instance : Append Contents := ⟨append⟩

/-- All that a text says and that has a line. -/
def items (c : Contents) : List Item :=
  c.imports.map .import_ ++ c.exports.map .export_ ++ c.uses.map .use ++ c.directives.map .directive

theorem ofLines_append (ls ls' : List (Line × Nat)) : ofLines (ls ++ ls') = ofLines ls ++ ofLines ls' := by
  show _ = append (ofLines ls) (ofLines ls')
  simp only [append, ofLines, List.filterMap_append, List.any_append, List.flatMap_append]

theorem ofLines_shift (n : Nat) (ls : List (Line × Nat)) :
    ofLines (ls.map fun l => (l.1, l.2 + n)) = (ofLines ls).shift n := by
  have himport : ∀ l : Line × Nat, importOf? (l.1, l.2 + n) = (importOf? l).map (·.shift n) := by
    rintro ⟨line, k⟩
    cases line <;> rfl
  have hexport : ∀ l : Line × Nat, exportOf? (l.1, l.2 + n) = (exportOf? l).map (·.shift n) := by
    rintro ⟨line, k⟩
    cases line <;> rfl
  have huses : ∀ l : Line × Nat, usesOf (l.1, l.2 + n) = (usesOf l).map (·.shift n) := by
    rintro ⟨line, k⟩
    cases line with
    | plain uses => simp [usesOf, UseSite.shift]
    | _ => rfl
  have hdirective : ∀ l : Line × Nat, directiveOf? (l.1, l.2 + n) = (directiveOf? l).map (·.shift n) := by
    rintro ⟨line, k⟩
    cases line <;> rfl
  simp only [ofLines, shift, List.filterMap_map, List.map_filterMap, List.flatMap_map, List.map_flatMap,
    List.any_map, Function.comp_def, himport, hexport, huses, hdirective]

/-- Lines that are counted from further on say the same further on. -/
theorem ofLines_zipIdx_add (ls : List Line) (k n : Nat) :
    ofLines (ls.zipIdx (k + n)) = (ofLines (ls.zipIdx k)).shift n := by
  rw [← ofLines_shift]
  congr 1
  rw [List.zipIdx_eq_map_add, List.zipIdx_eq_map_add (i := k), List.map_map]
  refine List.map_congr_left fun l _ => ?_
  show (l.1, k + n + l.2) = (l.1, k + l.2 + n)
  rw [Nat.add_right_comm]

theorem append_empty (c : Contents) : c ++ ({} : Contents) = c := by
  show append c {} = c
  simp [append]

theorem parse_eq (text : String) : parse text = ofLines (((Text.lines text.toList).map classify).zipIdx 1) :=
  rfl

/-- A line feed behind a text adds nothing to what it says. -/
theorem ofLines_lines_newline {a : List Char} (ha : a.getLast? ≠ some '\r') :
    ofLines (((Text.lines (a ++ ['\n'])).map classify).zipIdx 1)
      = ofLines (((Text.lines a).map classify).zipIdx 1) := by
  have hcases : Text.linesFrom [] (a ++ ['\n']) = Text.linesFrom [] a
      ∨ Text.linesFrom [] (a ++ ['\n']) = Text.linesFrom [] a ++ [[]] :=
    Text.linesFrom_newline a (by simpa using ha)
  rcases hcases with hsame | hmore
  · rw [Text.lines, hsame, Text.lines]
  · rw [Text.lines, hmore, List.map_append, List.zipIdx_append, ofLines_append]
    exact append_empty _

/-- **One text behind another.** -/
theorem parse_newline_between {a b : String} (ha : a.toList.getLast? ≠ some '\r') :
    parse (a ++ "\n" ++ b) = parse a ++ (parse b).shift (1 + a.toList.count '\n') := by
  have htext : (a ++ "\n" ++ b).toList = a.toList ++ '\n' :: b.toList := by
    rw [String.toList_append, String.toList_append, List.append_assoc]
    rfl
  have hcount : ((Text.lines (a.toList ++ ['\n'])).map classify).length = a.toList.count '\n' + 1 := by
    rw [List.length_map]
    exact Text.length_linesFrom_newline [] _
  rw [parse_eq, htext, Text.lines_append_newline, List.map_append, List.zipIdx_append, ofLines_append,
    ofLines_lines_newline ha, hcount, ofLines_zipIdx_add, Nat.add_comm 1 (a.toList.count '\n')]
  rfl

/-- A line by itself says what it says as the first line of a text. -/
theorem parse_ofList (hfree : '\n' ∉ line) : parse (String.ofList line) = ofLines [(classify line, 1)] := by
  rw [parse_eq, String.toList_ofList, Text.lines, Text.linesFrom_of_newline_notMem hfree]
  cases line with
  | nil => rfl
  | cons c line => rfl

theorem mem_items_ofLines (ls : List (Line × Nat)) :
    item ∈ (ofLines ls).items ↔ ∃ l ∈ ls, item ∈ (ofLines [l]).items := by
  simp only [items, ofLines, List.mem_append, List.mem_map, List.mem_filterMap, List.mem_flatMap,
    List.mem_singleton, exists_eq_left]
  grind

/-- What a line says has the number of the line. -/
theorem line_of_mem_items {l : Line × Nat} (hitem : item ∈ (ofLines [l]).items) :
    item.line = l.2 := by
  obtain ⟨said, n⟩ := l
  cases said with
  | globalScope => cases hitem
  | plain uses =>
      have huse : item ∈ (uses.map fun site => (⟨site.1, site.2, n⟩ : UseSite)).map Item.use := by
        simpa [items, ofLines, importOf?, exportOf?, usesOf, directiveOf?] using hitem
      obtain ⟨_, hsite, rfl⟩ := List.mem_map.mp huse
      obtain ⟨_, _, rfl⟩ := List.mem_map.mp hsite
      rfl
  | _ =>
      rw [List.mem_singleton.mp hitem]
      rfl

/-- **What a text says is what its lines say**, each in its place. -/
theorem mem_items_parse :
    item ∈ (parse text).items ↔ ∃ n line, (Text.lines text.toList)[n]? = some line
      ∧ item.line = n + 1 ∧ item ∈ ((parse (String.ofList line)).shift n).items := by
  have hline : ∀ n line, (Text.lines text.toList)[n]? = some line →
      (parse (String.ofList line)).shift n = ofLines [(classify line, n + 1)] := by
    intro n line hget
    have hfree := Text.newline_notMem_of_mem_linesFrom List.not_mem_nil (List.mem_of_getElem? hget)
    rw [parse_ofList hfree, ← ofLines_shift, Nat.add_comm]
    rfl
  rw [parse_eq, mem_items_ofLines]
  constructor
  · rintro ⟨⟨said, k⟩, hmem, hitem⟩
    rw [List.zipIdx_eq_map_add] at hmem
    obtain ⟨⟨_, n⟩, hplace, ⟨⟩⟩ := List.mem_map.mp hmem
    rw [List.mk_mem_zipIdx_iff_getElem?, List.getElem?_map, Option.map_eq_some_iff] at hplace
    obtain ⟨line, hget, rfl⟩ := hplace
    rw [Nat.add_comm 1 n] at hitem
    exact ⟨n, line, hget, line_of_mem_items hitem, hline n line hget ▸ hitem⟩
  · rintro ⟨n, line, hget, _, hitem⟩
    rw [hline n line hget] at hitem
    refine ⟨_, ?_, hitem⟩
    rw [Nat.add_comm n 1, List.mk_add_mem_zipIdx_iff_getElem?, List.getElem?_map, hget]
    rfl

/-- **The parser is line-local.**  Put two texts together with a line feed between them, the first of which
does not end in a carriage return.  The imports, exports, uses and directives of the whole are those of the
first text, followed by those of the second one, whose line numbers are moved on by one more than there are
line feeds in the first text; and the whole declares something global when one of the two does.

In every text, what is recorded with a line number is what the line with this number says as a text of its
own, counted from one.  A text of fewer than `2 ^ 32` lines has no number that takes more than 32 bits. -/
theorem parse_line_local (a b : String) (ha : a.toList.getLast? ≠ some '\r') :
    parse (a ++ "\n" ++ b) = parse a ++ (parse b).shift (1 + a.toList.count '\n')
      ∧ ∀ text : String,
        (∀ item, item ∈ (parse text).items ↔ ∃ n line, (Text.lines text.toList)[n]? = some line
          ∧ item.line = n + 1 ∧ item ∈ ((parse (String.ofList line)).shift n).items)
        ∧ ((Text.lines text.toList).length < 4294967296 →
          ∀ item ∈ (parse text).items, item.line < 4294967296) := by
  refine ⟨parse_newline_between ha, fun text => ⟨fun item => mem_items_parse, fun hlines item hitem => ?_⟩⟩
  obtain ⟨n, line, hget, hnumber, _⟩ := mem_items_parse.mp hitem
  have hn : n < (Text.lines text.toList).length := (List.getElem?_eq_some_iff.mp hget).1
  omega

end Contents

/-! ### Two texts -/

namespace Mixed

/-- An import that ends in a carriage return, an empty line, and two uses in one line. -/
def first : String :=
  "import \"x\"\r\n\nlet y = use \"x\".f + use \"x\".g"

/-- An empty line, an export, a declaration in the global scope, and a directive without a line feed. -/
def second : String :=
  "\nexport fn h int;\ndeclare global G\n!warn old"

end Mixed

namespace Contents

/-- The items of the second text are counted from the fourth line on. -/
theorem parse_line_local_mixed :
    Mixed.first.toList.getLast? ≠ some '\r'
      ∧ parse (Mixed.first ++ "\n" ++ Mixed.second)
        = { imports := [⟨"x", false, 1⟩]
            exports := [.declared "fn" "h" "int" 5]
            declaresGlobal := true
            uses := [⟨"x", "f", 3⟩, ⟨"x", "g", 3⟩]
            directives := [⟨.warning, "old", 7⟩] } := by
  have hend : Mixed.first.toList.getLast? ≠ some '\r' := by decide
  obtain ⟨hwhole, _⟩ := parse_line_local Mixed.first Mixed.second hend
  refine ⟨hend, ?_⟩
  rw [hwhole]
  decide +kernel

end Contents

end Source

end Rebuild
