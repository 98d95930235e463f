import Rebuild.Proofs.Project.Footprint
import Rebuild.Proofs.Source.Layout

/-!
# Formatting

To replace blanks in a declared export by other blanks, or to end it with a semicolon, is no change that
anything is told about: the text says the same, line by line, and so every unit of the project has the same
interface and the same signature.

* `Source.Reformats`: such an edit of a line, and `Source.Reformatted` of a text;
* `Source.Reformats.parse_eq`: the text says the same;
* `ProjectHost.interfaceFrom_of_contents`: interfaces depend on what the texts say, not on the texts;
* `ProjectHost.formatting_unseen`: both together.
-/

namespace Rebuild

/-! ### A line of a text -/

namespace Text

variable {before after line rest : List Char}

/-- A line starts after this text. -/
def StartsLine (before : List Char) : Prop :=
  before = [] ∨ before.getLast? = some '\n'

/-- A line ends before this text. -/
def EndsLine (after : List Char) : Prop :=
  after = [] ∨ ∃ rest, after = '\n' :: rest ∨ after = '\r' :: '\n' :: rest

theorem lines_append_of_startsLine (hbefore : StartsLine before) (cs : List Char) :
    lines (before ++ cs) = lines before ++ lines cs ∧ (lines before).length = before.count '\n' := by
  rcases hbefore with rfl | hlast
  · exact ⟨rfl, rfl⟩
  · obtain ⟨b, rfl⟩ := List.getLast?_eq_some_iff.mp hlast
    refine ⟨?_, ?_⟩
    · rw [List.append_assoc, List.singleton_append, lines_append_newline]
    · rw [lines, length_linesFrom_newline, List.count_append, List.count_singleton_self]

theorem dropReturn_cases (cs : List Char) : cs = dropReturn cs ∨ cs = '\r' :: dropReturn cs := by
  rw [dropReturn.eq_def]
  split
  · exact .inr rfl
  · exact .inl rfl

/-- A line is read up to the line feed, without the carriage return before it. -/
theorem linesFrom_append_of_newline_notMem {found : List Char} (hfree : '\n' ∉ line) :
    linesFrom found (line ++ '\n' :: rest) = (dropReturn (line.reverse ++ found)).reverse :: lines rest := by
  induction line generalizing found with
  | nil =>
      rw [List.nil_append, linesFrom, if_pos rfl]
      rfl
  | cons c line ih =>
      rw [List.mem_cons, not_or] at hfree
      rw [List.cons_append, linesFrom, if_neg (Ne.symm hfree.1), ih hfree.2, List.reverse_cons, List.append_assoc]
      rfl

/-- What is read from a line, and what is read behind it, do not mix. -/
theorem exists_lines_append (hafter : EndsLine after) :
    ∃ later, ∀ line, '\n' ∉ line → line ++ after ≠ [] →
      ∃ seen, (line = seen ∨ line = seen ++ ['\r']) ∧ lines (line ++ after) = seen :: later := by
  rcases hafter with rfl | ⟨rest, rfl | rfl⟩
  · refine ⟨[], fun line hfree hsome => ⟨line, .inl rfl, ?_⟩⟩
    rw [List.append_nil] at hsome ⊢
    rw [lines, linesFrom_of_newline_notMem hfree]
    simpa using hsome
  · refine ⟨lines rest, fun line hfree _ => ⟨(dropReturn line.reverse).reverse, ?_, ?_⟩⟩
    · rcases dropReturn_cases line.reverse with hkeeps | hdrops
      · exact .inl (List.reverse_eq_iff.mp hkeeps)
      · refine .inr ?_
        rw [List.reverse_eq_iff.mp hdrops, List.reverse_cons, List.reverse_append, List.reverse_reverse]
        rfl
    · rw [lines, linesFrom_append_of_newline_notMem hfree, List.append_nil]
  · refine ⟨lines rest, fun line hfree _ => ⟨line, .inl rfl, ?_⟩⟩
    have hfree' : '\n' ∉ line ++ ['\r'] := by simpa using hfree
    have htext : line ++ '\r' :: '\n' :: rest = (line ++ ['\r']) ++ '\n' :: rest := by simp
    rw [htext, lines, linesFrom_append_of_newline_notMem hfree', List.append_nil, List.reverse_append]
    show (line.reverse).reverse :: lines rest = line :: lines rest
    rw [List.reverse_reverse]

end Text

/-! ### Edits of the layout -/

namespace Source

open Text (isBlank trimEnd)

variable {before after line line' seen : List Char} {kind name shape : String} {text text' : String} {n : Nat}

/-- An edit of the layout of a line: other blanks in the place of some blanks, or a semicolon at the end, with
blanks around it or not, where the line does not end in one. -/
inductive Reformats : List Char → List Char → Prop
  | blanks (before after : List Char) {run run' : List Char} (hrun : run ≠ []) (hrun' : run' ≠ [])
      (hblank : ∀ c ∈ run, isBlank c = true) (hblank' : ∀ c ∈ run', isBlank c = true)
      (hfree : '\n' ∉ run') : Reformats (before ++ run ++ after) (before ++ run' ++ after)
  | semicolon (line : List Char) {run run' : List Char} (hnone : (trimEnd line).getLast? ≠ some ';')
      (hblank : ∀ c ∈ run, isBlank c = true) (hblank' : ∀ c ∈ run', isBlank c = true)
      (hfree : '\n' ∉ run) (hfree' : '\n' ∉ run') : Reformats line (line ++ run ++ ';' :: run')

/-- An edit of the layout of a declared export in a text. -/
inductive Reformatted : String → String → Prop
  | edit (before after : List Char) {line line' : List Char} {kind name shape : String}
      (hbefore : Text.StartsLine before) (hafter : Text.EndsLine after) (hfree : '\n' ∉ line)
      (hexport : Export.declared kind name shape (before.count '\n' + 1)
        ∈ (Contents.parse (String.ofList (before ++ line ++ after))).exports)
      (hedit : Reformats line line') :
      Reformatted (String.ofList (before ++ line ++ after)) (String.ofList (before ++ line' ++ after))

/-- A declared export is recorded where a line is one. -/
theorem mem_exports_parse :
    Export.declared kind name shape (n + 1) ∈ (Contents.parse text).exports
      ↔ ∃ line, (Text.lines text.toList)[n]? = some line ∧ classify line = .declared kind name shape := by
  have hexport : ∀ l : Line × Nat, exportOf? l = some (.declared kind name shape (n + 1))
      ↔ l = (.declared kind name shape, 1 + n) := by
    rintro ⟨said, k⟩
    cases said with
    | declared kind' name' shape' => simp [exportOf?, Nat.add_comm 1 n, and_assoc]
    | _ => simp [exportOf?]
  rw [Contents.parse_eq, Contents.ofLines, List.mem_filterMap]
  simp only [hexport, exists_eq_right, List.mk_add_mem_zipIdx_iff_getElem?, List.getElem?_map,
    Option.map_eq_some_iff]

theorem Alike.of_seen (hseen : line = seen ∨ line = seen ++ ['\r']) : Alike seen line := by
  rcases hseen with rfl | rfl
  · exact Alike.refl line
  · exact Alike.append_blanks seen (List.all_eq_true.mp rfl)

namespace Reformats

theorem alike (h : Reformats line line') : Alike line line' := by
  cases h with
  | blanks before after hrun hrun' hblank hblank' _ =>
      exact Alike.replace_blanks before after hrun hrun' hblank hblank'
  | semicolon line hnone hblank hblank' _ _ => exact Alike.append_semicolon line hnone hblank hblank'

/-- The edited line is one line. -/
theorem isLine (h : Reformats line line') (hline : '\n' ∉ line) : '\n' ∉ line' ∧ line' ≠ [] := by
  cases h with
  | blanks before after hrun hrun' _ _ hfree =>
      simp only [List.mem_append, not_or] at hline ⊢
      exact ⟨⟨⟨hline.1.1, hfree⟩, hline.2⟩, by simp [hrun']⟩
  | semicolon line _ _ _ hfree hfree' =>
      simp only [List.mem_append, List.mem_cons, not_or]
      exact ⟨⟨⟨hline, hfree⟩, by decide, hfree'⟩, by simp⟩

/-- **The text says the same** after an edit of the layout of a declared export. -/
theorem parse_eq (h : Reformats line line') (hbefore : Text.StartsLine before) (hafter : Text.EndsLine after)
    (hfree : '\n' ∉ line)
    (hexport : Export.declared kind name shape (before.count '\n' + 1)
      ∈ (Contents.parse (String.ofList (before ++ line ++ after))).exports) :
    Contents.parse (String.ofList (before ++ line' ++ after))
      = Contents.parse (String.ofList (before ++ line ++ after)) := by
  obtain ⟨later, hlater⟩ := Text.exists_lines_append hafter
  have hlines : ∀ cs : List Char, Text.lines (before ++ cs ++ after)
      = Text.lines before ++ Text.lines (cs ++ after) := by
    intro cs
    rw [List.append_assoc, (Text.lines_append_of_startsLine hbefore _).1]
  have hlength : (Text.lines before).length = before.count '\n' :=
    (Text.lines_append_of_startsLine hbefore []).2
  obtain ⟨found, hget, hfound⟩ := mem_exports_parse.mp hexport
  rw [String.toList_ofList, hlines, List.getElem?_append_right (by rw [hlength]), hlength, Nat.sub_self] at hget
  have hsome : line ++ after ≠ [] := by
    intro hnil
    rw [hnil] at hget
    cases hget
  have hsome' : line' ++ after ≠ [] := by simp [(h.isLine hfree).2]
  obtain ⟨seen, hseen, hread⟩ := hlater line hfree hsome
  obtain ⟨seen', hseen', hread'⟩ := hlater line' (h.isLine hfree).1 hsome'
  rw [hread] at hget
  cases hget
  -- what is read from the two lines differs in its layout as they do
  have hsame : classify seen' = classify found := by
    rw [hfound, (Alike.of_seen hseen').classify_iff, ← h.alike.classify_iff,
      ← (Alike.of_seen hseen).classify_iff, hfound]
  rw [Contents.parse_eq, Contents.parse_eq, String.toList_ofList, String.toList_ofList, hlines, hlines, hread,
    hread']
  simp only [List.map_append, List.map_cons, hsame]

end Reformats

/-- A text says the same after any number of such edits. -/
theorem parse_eq_of_reformatted (h : Relation.ReflTransGen Reformatted text text') :
    Contents.parse text' = Contents.parse text := by
  induction h with
  | refl => rfl
  | tail _ hedit ih =>
      cases hedit with
      | edit before after hbefore hafter hfree hexport hedit =>
          rw [hedit.parse_eq hbefore hafter hfree hexport, ih]

end Source

/-! ### Interfaces -/

namespace ProjectHost

variable {σ σ' : Type} [Storage σ] [Storage σ']
variable {h after : ProjectHost σ} {h' after' : ProjectHost σ'}
variable {units units' : Units} {visiting : List UnitPath} {path : UnitPath} {snapshot snapshot' : Snapshot}

/-- **Interfaces depend on what the texts say**, not on the texts. -/
theorem interfaceFrom_of_contents
    (hcontents : ∀ path, (units.lookup path).map (·.contents) = (units'.lookup path).map (·.contents)) :
    interfaceFrom units visiting path = interfaceFrom units' visiting path := by
  refine interfaceFrom_eq_of_offersAlike (C := fun _ => True) (fun _ _ _ _ _ _ => trivial)
    (fun other _ => ?_) (fun _ _ => Iff.rfl) trivial
  have hsame := hcontents other
  cases hunit : units.lookup other with
  | none =>
      rw [hunit, Option.map_none, eq_comm, Option.map_eq_none_iff] at hsame
      rw [hsame]
      exact .none
  | some unit =>
      rw [hunit, Option.map_some, eq_comm, Option.map_eq_some_iff] at hsame
      obtain ⟨unit', hunit', hsame⟩ := hsame
      rw [hunit']
      exact .some (.of_contents hsame.symm)

/-- Two files that are the same, or texts of which one is a reformatted version of the other. -/
def SameButLayout (read read' : Option (Except Error String)) : Prop :=
  read = read' ∨ ∃ text text', read = some (.ok text) ∧ read' = some (.ok text')
    ∧ Relation.ReflTransGen Source.Reformatted text text'

/-- Units that differ in their layout say the same, and one can be read when the other one can. -/
theorem SameButLayout.unit_eq {read read' : Option (Except Error String)} (hsame : SameButLayout read read') :
    (read.map LoadedUnit.ofRead).map (·.contents) = (read'.map LoadedUnit.ofRead).map (·.contents)
      ∧ (read.map LoadedUnit.ofRead).map (·.unreadable) = (read'.map LoadedUnit.ofRead).map (·.unreadable) := by
  rcases hsame with rfl | ⟨text, text', rfl, rfl, hedits⟩
  · exact ⟨rfl, rfl⟩
  · refine ⟨?_, rfl⟩
    show some (Source.Contents.parse text) = some (Source.Contents.parse text')
    rw [Source.parse_eq_of_reformatted hedits]

/-- The answer about an interface depends on what the texts say, and on which of them can be read. -/
theorem interface_of_contents
    (hcontents : ∀ path, (h.units.lookup path).map (·.contents) = (h'.units.lookup path).map (·.contents))
    (hreadable : (h.units.lookup path).map (·.unreadable) = (h'.units.lookup path).map (·.unreadable)) :
    (Host.interface h path).1 = (Host.interface h' path).1 := by
  have hsame : interfaceOf h.units path = interfaceOf h'.units path := interfaceFrom_of_contents hcontents
  simp only [Host.interface, readable]
  cases hunit : h.units.lookup path with
  | none =>
      rw [hunit, Option.map_none, eq_comm, Option.map_eq_none_iff] at hreadable
      rw [hreadable]
  | some unit =>
      rw [hunit, Option.map_some, eq_comm, Option.map_eq_some_iff] at hreadable
      obtain ⟨unit', hunit', hreason⟩ := hreadable
      simp only [hunit', hreason]
      cases unit.unreadable with
      | none => simp only [hsame]
      | some reason => rfl

/-- **Nobody is told about formatting.**  Edit the layout of a line that is recorded as a declared export, in
any text: replace blanks in it by other blanks, or end it with a semicolon when it does not end in one.  The
same export is recorded for the edited line, with the same kind, name and shape, and the rest of the text says
what it did.

So take two projects, each after a snapshot, whose units are the same but for any number of such edits.  About
every path they give the same answer when they are asked for its interface, and it has the same signature. -/
theorem formatting_unseen :
    (∀ (before line line' after : List Char) (kind name shape : String), Text.StartsLine before →
      Text.EndsLine after → '\n' ∉ line → Source.Reformats line line' →
      .declared kind name shape (before.count '\n' + 1)
        ∈ (Source.Contents.parse (String.ofList (before ++ line ++ after))).exports →
      .declared kind name shape (before.count '\n' + 1)
          ∈ (Source.Contents.parse (String.ofList (before ++ line' ++ after))).exports
        ∧ Source.Contents.parse (String.ofList (before ++ line' ++ after))
          = Source.Contents.parse (String.ofList (before ++ line ++ after)))
      ∧ ∀ (h after : ProjectHost σ) (h' after' : ProjectHost σ') (snapshot snapshot' : Snapshot),
        Faithful h.units → Faithful h'.units → h.includeInferred = h'.includeInferred →
        h.takeSnapshot = (.ok snapshot, after) → h'.takeSnapshot = (.ok snapshot', after') →
        (∀ path, SameButLayout (h.fileAt path) (h'.fileAt path)) →
        ∀ path, (Host.interface after path).1 = (Host.interface after' path).1
          ∧ (Host.interface after path).1.map (Interface.signature (Host.counts after))
            = (Host.interface after' path).1.map (Interface.signature (Host.counts after')) := by
  refine ⟨fun before line line' after kind name shape hbefore hafter hfree hedit hexport => ?_,
    fun h after h' after' snapshot snapshot' hknown hknown' hpolicy htake htake' hfiles path => ?_⟩
  · have hparse := hedit.parse_eq hbefore hafter hfree hexport
    exact ⟨hparse ▸ hexport, hparse⟩
  · have hunits : ∀ path,
        (after.units.lookup path).map (·.contents) = (after'.units.lookup path).map (·.contents)
          ∧ (after.units.lookup path).map (·.unreadable) = (after'.units.lookup path).map (·.unreadable) := by
      intro path
      rw [lookup_takeSnapshot hknown htake, lookup_takeSnapshot hknown' htake']
      exact (hfiles path).unit_eq
    have hinterface : (Host.interface after path).1 = (Host.interface after' path).1 :=
      interface_of_contents (fun path => (hunits path).1) (hunits path).2
    have hcounts : (Host.counts after : Declaration → Bool) = Host.counts after' := by
      obtain ⟨_, _, rfl⟩ := eq_of_takeSnapshot htake
      obtain ⟨_, _, rfl⟩ := eq_of_takeSnapshot htake'
      funext d
      show (h.includeInferred || !d.inferred) = (h'.includeInferred || !d.inferred)
      rw [hpolicy]
    exact ⟨hinterface, by rw [hinterface, hcounts]⟩

end ProjectHost

/-! ### A line with other blanks and a semicolon -/

namespace Spaced

/-- A declared export with a run of blanks in it. -/
def wide : List Char := "export \t fn f\tint".toList

/-- The same line with one blank for this run. -/
def narrow : List Char := "export fn f\tint".toList

/-- And with a semicolon at its end. -/
def ended : List Char := "export fn f\tint; ".toList

/-- What is behind the line. -/
def rest : List Char := "\r\nlet x = 1".toList

theorem endsLine_rest : Text.EndsLine rest :=
  .inr ⟨"let x = 1".toList, .inr (by decide)⟩

theorem reformats_narrow : Source.Reformats wide narrow := by
  have hrun : " \t ".toList ≠ [] := by decide
  have hrun' : [' '] ≠ [] := by decide
  exact .blanks "export".toList "fn f\tint".toList hrun hrun' (List.all_eq_true.mp rfl)
    (List.all_eq_true.mp rfl) (by decide)

theorem reformats_ended : Source.Reformats narrow ended := by
  have hnone : ∀ c ∈ [], Text.isBlank c = true := nofun
  have hrun : ∀ c ∈ [' '], Text.isBlank c = true := List.all_eq_true.mp rfl
  exact .semicolon narrow (by decide) hnone hrun (by decide) (by decide)

theorem recorded : ∀ line ∈ [wide, narrow],
    Source.Export.declared "fn" "f" "int" 1 ∈ (Source.Contents.parse (String.ofList (line ++ rest))).exports := by
  decide

theorem reformatted :
    Relation.ReflTransGen Source.Reformatted (String.ofList (wide ++ rest)) (String.ofList (ended ++ rest)) := by
  have hfirst : Source.Reformatted (String.ofList (wide ++ rest)) (String.ofList (narrow ++ rest)) :=
    .edit [] rest (.inl rfl) endsLine_rest (by decide) (recorded wide (by decide)) reformats_narrow
  have hsecond : Source.Reformatted (String.ofList (narrow ++ rest)) (String.ofList (ended ++ rest)) :=
    .edit [] rest (.inl rfl) endsLine_rest (by decide) (recorded narrow (by decide)) reformats_ended
  exact .tail (.single hfirst) hsecond

/-- A project of a unit that starts with the line, and of one that republishes it. -/
def project (line : List Char) : ProjectHost FileTable :=
  .ofFiles [("a", Text.Utf8.encode (String.ofList (line ++ rest))),
    ("b", Text.Utf8.encode "export * from \"a\"")] true

theorem scan_project : ∀ line ∈ [wide, ended],
    (project line).matcher.scan (project line).storage (project line).root = .ok ["a", "b"] := by
  have hfound : ∀ line ∈ [wide, ended], (project line).matcher.scanFrom (project line).storage (project line).root
      (Storage.entryCount (project line).storage + 1) [(project line).root] [] = .ok ["a", "b"] := by
    decide +kernel
  exact fun line hline => Matcher.scan_of_sorted (hfound line hline) (by decide)

theorem fileAt_project (path : UnitPath) :
    ProjectHost.SameButLayout ((project wide).fileAt path) ((project ended).fileAt path) := by
  have hfirst : ∀ line ∈ [wide, ended],
      Storage.readText (project line).storage (DiskPath.join (project line).root "a")
        = .ok (String.ofList (line ++ rest)) := by
    decide
  have hsecond : Storage.readText (project wide).storage (DiskPath.join (project wide).root "b")
      = Storage.readText (project ended).storage (DiskPath.join (project ended).root "b") := by
    decide
  rw [ProjectHost.fileAt_of_scan (scan_project wide (by decide)),
    ProjectHost.fileAt_of_scan (scan_project ended (by decide))]
  split
  · rename_i hpath
    rcases List.mem_cons.mp hpath with rfl | hpath
    · rw [hfirst wide (by decide), hfirst ended (by decide)]
      exact .inr ⟨_, _, rfl, rfl, reformatted⟩
    · rw [List.mem_singleton.mp hpath, hsecond]
      exact .inl rfl
  · exact .inl rfl

end Spaced

namespace ProjectHost

/-- The unit with the line and the one that republishes it look the same. -/
theorem formatting_unseen_spaced :
    Source.Export.declared "fn" "f" "int" 1
        ∈ (Source.Contents.parse (String.ofList (Spaced.ended ++ Spaced.rest))).exports
      ∧ ∃ snapshot after snapshot' after', (Spaced.project Spaced.wide).takeSnapshot = (.ok snapshot, after)
        ∧ (Spaced.project Spaced.ended).takeSnapshot = (.ok snapshot', after')
        ∧ ∀ path ∈ ["a", "b"], (Host.interface after path).1 = (Host.interface after' path).1
          ∧ (Host.interface after path).1.map (Interface.signature (Host.counts after))
            = (Host.interface after' path).1.map (Interface.signature (Host.counts after')) := by
  obtain ⟨hlines, hprojects⟩ := @formatting_unseen FileTable FileTable _ _
  obtain ⟨snapshot, after, htake⟩ := exists_takeSnapshot (Spaced.scan_project Spaced.wide (by decide))
  obtain ⟨snapshot', after', htake'⟩ := exists_takeSnapshot (Spaced.scan_project Spaced.ended (by decide))
  refine ⟨?_, snapshot, after, snapshot', after', htake, htake', fun path _ => ?_⟩
  · exact (hlines [] Spaced.narrow Spaced.ended Spaced.rest "fn" "f" "int" (.inl rfl) Spaced.endsLine_rest
      (by decide) Spaced.reformats_ended (Spaced.recorded Spaced.narrow (by decide))).1
  · have hpolicy : ∀ line, (Spaced.project line).includeInferred = true := fun _ => rfl
    exact hprojects (Spaced.project Spaced.wide) after (Spaced.project Spaced.ended) after' snapshot snapshot'
      faithful_nil faithful_nil ((hpolicy _).trans (hpolicy _).symm) htake htake' Spaced.fileAt_project path

end ProjectHost

end Rebuild
