import Mathlib.Data.List.Flatten
import Rebuild.Proofs.Project.Footprint
import Rebuild.Proofs.Project.Outputs

/-!
# Which lines a full output has

The parser and the emit each decide for themselves what a directive is.  The parser takes a line for one
when an exclamation mark, the word `error` or `warn` and a blank stand at its beginning; the emit leaves out
every line that begins with an exclamation mark.  So no directive gets into an output, and a line of
implementation text stays out of it when it happens to begin like a directive.

* `Source.directive?_isSome_iff`: the lines that the parser takes for directives;
* `Source.Contents.hasDirectiveAt_eq`: a text has a directive recorded for exactly those lines;
* `ProjectHost.bodyLines_eq`: the emitted lines among the lines that are no directives;
* `ProjectHost.full_output_lines`: the file that a full emit writes, and when a line is lost;
* `ProjectHost.marked_line_lost`: a line that is.
-/

namespace Rebuild

namespace Source

variable {word cs rest : List Char} {line : List Char} {n : Nat} {text : String}

/-! ### The lines that are directives -/

theorem word?_eq_some_iff : word? word cs = some rest ↔ cs = word ++ rest := by
  induction word generalizing cs with
  | nil => simp [word?]
  | cons w word ih =>
      cases cs with
      | nil => simp [word?]
      | cons c cs =>
          rw [word?]
          split
          · rename_i hsame
            simp [ih, hsame]
          · rename_i hother
            simp [Ne.symm hother]

theorem blanks?_isSome_iff :
    (blanks? cs).isSome = true ↔ ∃ blank rest, Text.isBlank blank = true ∧ cs = blank :: rest := by
  cases cs with
  | nil => simp [blanks?]
  | cons c cs => cases hblank : Text.isBlank c <;> simp [blanks?, hblank]

def keywords : List (List Char) :=
  ["error".toList, "warn".toList]

/-- A line has a keyword behind an exclamation mark, and a blank behind the keyword. -/
def IsDirective (line : List Char) : Prop :=
  ∃ keyword ∈ keywords, ∃ blank rest, Text.isBlank blank = true
    ∧ Text.trimStart line = '!' :: keyword ++ blank :: rest

theorem isDirective_of_directive? {found : Line} (hfound : directive? line = some found) :
    IsDirective line ∧ ∃ category message, found = .directive category message := by
  rw [directive?, Option.bind_eq_bind, Option.bind_eq_some_iff] at hfound
  obtain ⟨cs, hmark, hfound⟩ := hfound
  rw [IsDirective, word?_eq_some_iff.mp hmark]
  cases herror : word? "error".toList cs with
  | some after =>
      simp only [herror, Option.bind_eq_bind, Option.bind_some, Option.bind_eq_some_iff] at hfound
      obtain ⟨_, hblanks, hline⟩ := hfound
      obtain ⟨blank, rest, hblank, rfl⟩ := blanks?_isSome_iff.mp (Option.isSome_of_eq_some hblanks)
      rw [word?_eq_some_iff.mp herror]
      exact ⟨⟨"error".toList, List.mem_cons_self, blank, rest, hblank, rfl⟩, _, _, (Option.some.inj hline).symm⟩
  | none =>
      simp only [herror, Option.bind_eq_bind, Option.bind_eq_some_iff, Option.map_eq_some_iff] at hfound
      obtain ⟨_, ⟨after, hwarn, rfl⟩, _, hblanks, hline⟩ := hfound
      obtain ⟨blank, rest, hblank, rfl⟩ := blanks?_isSome_iff.mp (Option.isSome_of_eq_some hblanks)
      rw [word?_eq_some_iff.mp hwarn]
      exact ⟨⟨"warn".toList, List.mem_cons_of_mem _ List.mem_cons_self, blank, rest, hblank, rfl⟩, _, _,
        (Option.some.inj hline).symm⟩

/-- **What the parser takes for a directive.** -/
theorem directive?_isSome_iff : (directive? line).isSome = true ↔ IsDirective line := by
  constructor
  · intro hsome
    obtain ⟨found, hfound⟩ := Option.isSome_iff_exists.mp hsome
    exact (isDirective_of_directive? hfound).1
  · rintro ⟨keyword, hkeyword, blank, rest, hblank, hline⟩
    have hmark : word? ['!'] (Text.trimStart line) = some (keyword ++ blank :: rest) :=
      word?_eq_some_iff.mpr hline
    have hblanks : blanks? (blank :: rest) = some (Text.trimStart rest) := by
      rw [blanks?, if_pos hblank]
    have hkeyword : keyword = "error".toList ∨ keyword = "warn".toList := by
      simpa [keywords] using hkeyword
    rw [directive?, hmark, Option.bind_eq_bind, Option.bind_some]
    rcases hkeyword with rfl | rfl
    · show ((blanks? (blank :: rest)).bind _).isSome = true
      rw [hblanks]
      rfl
    · show ((blanks? (blank :: rest)).bind _).isSome = true
      rw [hblanks]
      rfl

/-- Whether a line begins with an exclamation mark, behind blanks. -/
def isMarked (line : List Char) : Bool :=
  (Text.trimStart line).head? == some '!'

theorem isMarked_of_directive? (hdirective : (directive? line).isSome = true) : isMarked line = true := by
  obtain ⟨keyword, _, blank, rest, _, hline⟩ := directive?_isSome_iff.mp hdirective
  rw [isMarked, hline]
  rfl

/-! ### The directives of a text -/

/-- No later reading of a line yields a directive. -/
theorem directiveOf?_other {found : Line} (n : Nat)
    (hfound : (import? line).or ((reexport? line).or ((inferred? line).or
      ((declared? line).or (globalScope? line)))) = some found) : directiveOf? (found, n) = none := by
  simp only [Option.or_eq_some_iff] at hfound
  rcases hfound with h | ⟨_, h | ⟨_, h | ⟨_, h | ⟨_, h⟩⟩⟩⟩
  · simp only [import?, Option.bind_eq_bind, Option.bind_eq_some_iff, Option.ite_none_right_eq_some,
      Option.some.injEq] at h
    obtain ⟨_, _, _, _, _, _, _, rfl⟩ := h
    rfl
  · simp only [reexport?, Option.bind_eq_bind, Option.bind_eq_some_iff, Option.ite_none_right_eq_some,
      Option.some.injEq] at h
    grind [directiveOf?]
  · simp only [inferred?, Option.bind_eq_bind, Option.bind_eq_some_iff, Option.ite_none_right_eq_some,
      Option.some.injEq] at h
    grind [directiveOf?]
  · simp only [declared?, Option.bind_eq_bind, Option.bind_eq_some_iff, Option.pure_def,
      Option.some.injEq] at h
    grind [directiveOf?]
  · simp only [globalScope?, Option.bind_eq_bind, Option.bind_eq_some_iff, Option.ite_none_right_eq_some,
      Option.some.injEq] at h
    grind [directiveOf?]

/-- A line is recorded as a directive exactly when the parser reads one. -/
theorem directiveOf?_classify_isSome (line : List Char) (n : Nat) :
    (directiveOf? (classify line, n)).isSome = (directive? line).isSome := by
  rw [classify]
  cases hdirective : directive? line with
  | some found =>
      obtain ⟨_, category, message, rfl⟩ := isDirective_of_directive? hdirective
      rfl
  | none =>
      rw [Option.none_or]
      cases hother : (import? line).or ((reexport? line).or ((inferred? line).or
          ((declared? line).or (globalScope? line)))) with
      | none => rfl
      | some found =>
          rw [Option.getD_some, directiveOf?_other n hother]
          rfl

theorem directiveOf?_line {l : Line × Nat} {d : Directive} (hd : directiveOf? l = some d) : d.line = l.2 := by
  obtain ⟨line, n⟩ := l
  cases line with
  | directive category message =>
      cases hd
      rfl
  | _ => cases hd

def numberedLines (text : String) : List (List Char × Nat) :=
  (Text.lines text.toList).zipIdx 1

namespace Contents

/-- Whether a directive is recorded for a line. -/
def hasDirectiveAt (c : Contents) (n : Nat) : Bool :=
  c.directives.any fun d => d.line == n

theorem directives_parse (text : String) :
    (parse text).directives
      = (numberedLines text).filterMap fun l => directiveOf? (classify l.1, l.2) := by
  show (((Text.lines text.toList).map classify).zipIdx 1).filterMap directiveOf? = _
  rw [List.zipIdx_map, List.filterMap_map]
  rfl

/-- **What is recorded.**  The parser records a directive for the lines that are directives, and for no
others. -/
theorem hasDirectiveAt_eq (hline : (line, n) ∈ numberedLines text) :
    (parse text).hasDirectiveAt n = (directive? line).isSome := by
  rw [Bool.eq_iff_iff, ← directiveOf?_classify_isSome line n, hasDirectiveAt, List.any_eq_true]
  simp only [directives_parse, List.mem_filterMap, beq_iff_eq]
  constructor
  · rintro ⟨d, ⟨⟨line', n'⟩, hline', hd⟩, rfl⟩
    -- one number belongs to one line
    have hn := directiveOf?_line hd
    obtain rfl : line = line' := by
      have hget := List.mem_zipIdx hline
      have hget' := List.mem_zipIdx hline'
      simp only [hn] at hget
      rw [hget.2.2, hget'.2.2]
    rw [hn, hd]
    rfl
  · intro hsome
    obtain ⟨d, hd⟩ := Option.isSome_iff_exists.mp hsome
    exact ⟨d, ⟨(line, n), hline, hd⟩, directiveOf?_line hd⟩

end Contents

/-- The lines of a text for which no directive is recorded, in order. -/
def undirectedLines (text : String) : List (List Char) :=
  ((numberedLines text).filter fun l => !(Contents.parse text).hasDirectiveAt l.2).map (·.1)

theorem undirectedLines_eq (text : String) :
    undirectedLines text = (Text.lines text.toList).filter fun line => (directive? line).isNone := by
  have hrecorded : ∀ l ∈ numberedLines text,
      (!(Contents.parse text).hasDirectiveAt l.2) = (directive? l.1).isNone := by
    intro l hl
    rw [Contents.hasDirectiveAt_eq hl, Option.not_isSome]
  rw [undirectedLines, List.filter_congr hrecorded]
  have hlines : Text.lines text.toList = (numberedLines text).map (·.1) :=
    (List.zipIdx_map_fst 1 _).symm
  rw [hlines, List.filter_map]
  rfl

end Source

/-- An absolute path replaces the directory that it is put below. -/
theorem DiskPath.join_of_isAbsolute {base path : DiskPath} (habsolute : isAbsolute path = true) :
    join base path = path := by
  rw [join, habsolute]
  rfl

namespace ProjectHost

open Source (undirectedLines isMarked)

variable {σ : Type} [Storage σ] {h : ProjectHost σ} {path : UnitPath} {unit : LoadedUnit}
variable {good : σ → Prop} {files : DiskPath → Prop} {lines : List (List Char)}

/-! ### Emitted lines -/

/-- **Which lines an emit keeps**: of the lines without a directive those that are not marked. -/
theorem bodyLines_eq (text : String) :
    bodyLines text = (undirectedLines text).filter fun line => !isMarked line := by
  rw [Source.undirectedLines_eq, List.filter_filter, bodyLines]
  refine List.filter_congr fun line _ => ?_
  show (!isMarked line) = (!isMarked line && (Source.directive? line).isNone)
  cases hdirective : Source.directive? line with
  | none => rw [Option.isNone_none, Bool.and_true]
  | some found =>
      have hmarked : isMarked line = true := Source.isMarked_of_directive? (hdirective ▸ rfl)
      rw [hmarked]
      rfl

/-- A full output with some lines. -/
def fileOf (path : UnitPath) (lines : List (List Char)) : String :=
  "// generated from " ++ path ++ "\n" ++ String.ofList (lines.flatMap fun line => line ++ ['\n'])

omit [Storage σ] in
theorem outputs_full (h : ProjectHost σ) (path : UnitPath) (unit : LoadedUnit) :
    h.outputs path unit .full
      = [(h.outputPath path .full, fileOf path (bodyLines unit.text)),
        (h.outputPath path .types, declarationText (interfaceOf h.units path))] :=
  rfl

/-- Lines that are left out make a file shorter. -/
theorem fileOf_filter_eq_iff (path : UnitPath) (keep : List Char → Bool) :
    fileOf path (lines.filter keep) = fileOf path lines ↔ ∀ line ∈ lines, keep line = true := by
  constructor
  · intro hsame line hline
    have htext := String.ofList_injective ((String.append_right_inj _).mp hsame)
    cases hkeep : keep line with
    | true => rfl
    | false =>
        exfalso
        obtain ⟨before, after, rfl⟩ := List.append_of_mem hline
        have hlength := congrArg List.length htext
        have hshorter : ∀ some : List (List Char), ((some.filter keep).flatMap (· ++ ['\n'])).length
            ≤ (some.flatMap (· ++ ['\n'])).length :=
          fun some => (List.filter_sublist.flatMap (· ++ ['\n'])).length_le
        have hbefore := hshorter before
        have hafter := hshorter after
        simp only [List.filter_append, List.filter_cons, hkeep, List.flatMap_append, List.flatMap_cons,
          List.length_append, List.length_singleton, Bool.false_eq_true, if_false] at hlength
        omega
  · intro hall
    rw [List.filter_eq_self.mpr hall]

omit [Storage σ] in
/-- The two outputs of a unit are different files, whatever its path is. -/
theorem outputPath_full_ne_types (h : ProjectHost σ) (path : UnitPath) :
    h.outputPath path .full ≠ h.outputPath path .types := by
  intro hsame
  rw [outputPath_eq, outputPath_eq] at hsame
  have habsolute : DiskPath.isAbsolute (path ++ EmitKind.types.extension)
      = DiskPath.isAbsolute (path ++ EmitKind.full.extension) := by
    rw [DiskPath.isAbsolute, DiskPath.isAbsolute, String.toList_append, String.toList_append,
      List.head?_append, List.head?_append]
    cases path.toList.head? with
    | none => rfl
    | some c => rfl
  cases hfull : DiskPath.isAbsolute (path ++ EmitKind.full.extension) with
  | false =>
      rw [hfull] at habsolute
      cases (EmitKind.append_extension_inj (DiskPath.join_inj hfull habsolute hsame)).2
  | true =>
      rw [hfull] at habsolute
      rw [DiskPath.join_of_isAbsolute hfull, DiskPath.join_of_isAbsolute habsolute] at hsame
      cases (EmitKind.append_extension_inj hsame).2

/-- A full emit of a unit that could be read writes its body. -/
theorem exists_emitUnit_full (haccepts : Storage.Accepts good files) (hgood : good h.storage)
    (hunit : h.units.lookup path = some unit) (hreadable : unit.unreadable = none)
    (hfiles : ∀ kind, files (h.outputPath path kind)) :
    ∃ disk, h.emitUnit path .full
        = (.ok ⟨[h.outputPath path .full, h.outputPath path .types], []⟩, h.onDisk disk)
      ∧ good disk ∧ (h.onDisk disk).OutputIs path .full (fileOf path (bodyLines unit.text)) := by
  have hread : h.readable path = .ok unit := by
    rw [readable, hunit]
    simp only [hreadable]
  have houtputs : ∀ output ∈ h.outputs path unit .full, files output.1 := by
    intro output houtput
    rcases List.mem_cons.mp houtput with rfl | hlater
    · exact hfiles .full
    · rw [List.mem_singleton.mp hlater]
      exact hfiles .types
  have hnodup : ((h.outputs path unit .full).map (·.1)).Nodup := by
    simpa [outputs_full] using outputPath_full_ne_types h path
  obtain ⟨disk, hwrite, hgood', hwritten, _⟩ := writeAll_eq haccepts path houtputs hnodup hgood
  refine ⟨disk, ?_, hgood', hwritten _ List.mem_cons_self⟩
  rw [emitUnit, hread]
  simp only [hwrite]
  rfl

theorem outputIs_iff {text text' : String} (htext : h.OutputIs path .full text) :
    h.OutputIs path .full text' ↔ text = text' := by
  rw [OutputIs] at htext
  rw [OutputIs, htext, Except.ok.injEq]
  exact ⟨fun hsame => Text.Utf8.encode_inj hsame, fun hsame => by rw [hsame]⟩

/-- **Directives are left out, and what begins like one.**  In every host, where the storage takes what is
written, a full emit of a unit that could be read succeeds.  The file that it writes has, behind the line
that names the unit, the lines of the text for which the parser records no directive, in order and each
with a line feed, less those that begin with an exclamation mark.  So no directive gets into the file, and
it has all other lines exactly when none of them begins with an exclamation mark. -/
theorem full_output_lines (haccepts : Storage.Accepts good files) (hgood : good h.storage)
    (hunit : h.units.lookup path = some unit) (hreadable : unit.unreadable = none)
    (hfiles : ∀ kind, files (h.outputPath path kind)) :
    ∃ disk, h.emitUnit path .full
        = (.ok ⟨[h.outputPath path .full, h.outputPath path .types], []⟩, h.onDisk disk)
      ∧ good disk
      ∧ (h.onDisk disk).OutputIs path .full
        (fileOf path ((undirectedLines unit.text).filter fun line => !isMarked line))
      ∧ ((h.onDisk disk).OutputIs path .full (fileOf path (undirectedLines unit.text))
        ↔ ∀ line ∈ undirectedLines unit.text, isMarked line = false) := by
  obtain ⟨disk, hemit, hgood', houtput⟩ := exists_emitUnit_full haccepts hgood hunit hreadable hfiles
  rw [bodyLines_eq] at houtput
  refine ⟨disk, hemit, hgood', houtput, ?_⟩
  rw [outputIs_iff houtput, fileOf_filter_eq_iff]
  simp only [Bool.not_eq_true']

end ProjectHost

/-! ### A text with lines that begin like directives -/

namespace Marked

/-- A directive, a note, a keyword without a blank, and another line. -/
def text : String :=
  "!warn old\n!todo\n  !error\nlet x = 1\n"

def project : ProjectHost FileTable :=
  .ofFiles [("a", Text.Utf8.encode text)] true

theorem undirectedLines_text :
    Source.undirectedLines text = ["!todo".toList, "  !error".toList, "let x = 1".toList] := by
  decide +kernel

/-- The outputs of the unit. -/
def IsOutput (path : DiskPath) : Prop :=
  path ∈ [project.outputPath "a" .full, project.outputPath "a" .types]

theorem accepts : Storage.Accepts (fun _ : FileTable => True) IsOutput := by
  refine FileTable.accepts ?_
  have hkeys : ∀ path ∈ [project.outputPath "a" .full, project.outputPath "a" .types],
      ∀ other ∈ [project.outputPath "a" .full, project.outputPath "a" .types],
        FileTable.key path = FileTable.key other → path = other := by
    decide +kernel
  intro path other hpath hother hsame
  exact hkeys path hpath other hother hsame

/-- The unit has this text after a snapshot, and its outputs stay where they are. -/
theorem exists_snapshot : ∃ snapshot after, project.takeSnapshot = (.ok snapshot, after)
    ∧ (∀ kind, IsOutput (after.outputPath "a" kind))
    ∧ after.units.lookup "a" = some (.ofText text) := by
  have hfound : project.matcher.scanFrom project.storage project.root (Storage.entryCount project.storage + 1)
      [project.root] [] = .ok ["a"] := by
    decide +kernel
  have hscan : project.matcher.scan project.storage project.root = .ok ["a"] :=
    Matcher.scan_of_sorted hfound (by decide)
  obtain ⟨snapshot, after, htake⟩ := ProjectHost.exists_takeSnapshot hscan
  refine ⟨snapshot, after, htake, ?_, ?_⟩
  · obtain ⟨_, _, rfl⟩ := ProjectHost.eq_of_takeSnapshot htake
    intro kind
    cases kind with
    | full => exact List.mem_cons_self
    | types => exact List.mem_cons_of_mem _ List.mem_cons_self
  · have hread : Storage.readText project.storage (DiskPath.join project.root "a") = .ok text := by
      decide +kernel
    rw [ProjectHost.lookup_takeSnapshot ProjectHost.faithful_nil htake,
      ProjectHost.fileAt_of_scan hscan, if_pos List.mem_cons_self, hread]
    rfl

end Marked

namespace ProjectHost

open Source (undirectedLines isMarked)

/-- An emit leaves out a directive, a note and a keyword without a blank. -/
theorem full_output_lines_marked :
    ∃ snapshot after disk, Marked.project.takeSnapshot = (.ok snapshot, after)
      ∧ (after.emitUnit "a" .full).2 = after.onDisk disk
      ∧ (after.onDisk disk).OutputIs "a" .full "// generated from a\nlet x = 1\n" := by
  obtain ⟨snapshot, after, htake, hfiles, hunit⟩ := Marked.exists_snapshot
  obtain ⟨disk, hemit, _, houtput, _⟩ := full_output_lines Marked.accepts trivial hunit rfl hfiles
  refine ⟨snapshot, after, disk, htake, by rw [hemit], ?_⟩
  have hlines : fileOf "a"
      ((undirectedLines (LoadedUnit.ofText Marked.text).text).filter fun line => !isMarked line)
      = "// generated from a\nlet x = 1\n" := by
    show fileOf "a" ((undirectedLines Marked.text).filter fun line => !isMarked line) = _
    rw [Marked.undirectedLines_text]
    decide +kernel
  rw [← hlines]
  exact houtput

/-- The parser records one directive in this text, and the emit loses two of the three other lines. -/
theorem marked_line_lost :
    ∃ snapshot after disk, Marked.project.takeSnapshot = (.ok snapshot, after)
      ∧ (after.emitUnit "a" .full).2 = after.onDisk disk
      ∧ undirectedLines Marked.text = ["!todo".toList, "  !error".toList, "let x = 1".toList]
      ∧ ¬ (after.onDisk disk).OutputIs "a" .full (fileOf "a" (undirectedLines Marked.text)) := by
  obtain ⟨snapshot, after, htake, hfiles, hunit⟩ := Marked.exists_snapshot
  obtain ⟨disk, hemit, _, houtput⟩ := exists_emitUnit_full Marked.accepts trivial hunit rfl hfiles
  refine ⟨snapshot, after, disk, htake, by rw [hemit], Marked.undirectedLines_text, ?_⟩
  have hbody : (after.onDisk disk).OutputIs "a" .full (fileOf "a" (bodyLines Marked.text)) := houtput
  rw [outputIs_iff hbody, bodyLines_eq, fileOf_filter_eq_iff]
  intro hall
  have htodo : "!todo".toList ∈ undirectedLines Marked.text := by
    rw [Marked.undirectedLines_text]
    exact List.mem_cons_self
  exact absurd (hall _ htodo) (by decide)

end ProjectHost

end Rebuild
