import Rebuild.BuildInfo.Layout
import Rebuild.Proofs.Json.RoundTrip

/-!
# Documents read back from their text

A document is read back from its text exactly when it *fits*: its positions, codes and line numbers
are below 2^32, and its cursor below 2^64.  A document that does not fit is not read at all.

* `Json.ReadsBack`: what is written is read back exactly when it fits; `Json.ReadsBack.list`: the law
  passes from items to lists;
* `BuildInfo.Document.Fits`, `BuildInfo.Document.ofJson?_toJson`: the law for documents;
* `BuildInfo.Document.read_text`: what is read from the text of a document;
* `Json.Yields`, `BuildInfo.Document.yields`: whatever is read from a text fits, however it is laid out.
-/

namespace Rebuild

namespace Json

/-- One condition after another, each for the value that it guards. -/
theorem bind_guard {α β : Type} {first second both : Prop} [Decidable first] [Decidable second]
    [Decidable both] {x : α} {y : β} {next : α → Option β} (hboth : both ↔ first ∧ second)
    (hnext : next x = if second then some y else none) :
    ((if first then some x else none).bind next) = if both then some y else none := by
  by_cases hfirst : first
  · rw [if_pos hfirst, Option.bind_some, hnext]
    by_cases hsecond : second
    · rw [if_pos hsecond, if_pos (hboth.mpr ⟨hfirst, hsecond⟩)]
    · rw [if_neg hsecond, if_neg fun h => hsecond (hboth.mp h).2]
  · rw [if_neg hfirst, if_neg fun h => hfirst (hboth.mp h).1]
    rfl

theorem mapM_of_mem_zip {α β : Type} {read : α → Option β} {xs : List α} {ys : List β}
    (h : xs.mapM read = some ys) {x : α} {y : β} (hmem : (x, y) ∈ xs.zip ys) : read x = some y := by
  induction xs generalizing ys with
  | nil => cases hmem
  | cons first xs ih =>
      rw [List.mapM_cons, Option.bind_eq_bind, Option.bind_eq_some_iff] at h
      obtain ⟨value, hvalue, hrest⟩ := h
      rw [Option.bind_eq_bind, Option.bind_eq_some_iff] at hrest
      obtain ⟨values, hvalues, hys⟩ := hrest
      cases hys
      rcases List.mem_cons.mp hmem with hfirst | hlater
      · cases hfirst
        exact hvalue
      · exact ih hvalues hlater

/-- A field that is read among others is read alone in the same way. -/
theorem fields?_single {names : List String} {fields : List (Option String × Json)}
    {values : List (Option Json)} (h : fields? names (.object fields) = some values) {name : String}
    {value : Option Json} (hmem : (name, value) ∈ names.zip values) :
    fields? [name] (.object fields) = some [value] := by
  rw [fields?] at h ⊢
  split at h
  · rename_i hkeys
    have hvalue := mapM_of_mem_zip h hmem
    rw [if_pos hkeys, List.mapM_cons, hvalue]
    rfl
  · cases h

/-- What is written is read back exactly when it fits. -/
def ReadsBack {α : Type} (write : α → Json) (read : Json → Option α) (fits : α → Prop)
    [DecidablePred fits] : Prop :=
  ∀ x, read (write x) = if fits x then some x else none

theorem readsBack_nat (bound : Nat) : ReadsBack .nat (natBelow? bound) (· < bound) :=
  fun _ => rfl

/-- A list is read back exactly when all its items fit. -/
theorem ReadsBack.list {α : Type} {write : α → Json} {read : Json → Option α} {fits : α → Prop}
    [DecidablePred fits] (h : ReadsBack write read fits) :
    ReadsBack (fun xs : List α => .list (xs.map write)) (list? read) (fun xs => ∀ x ∈ xs, fits x) := by
  intro xs
  show (xs.map write).mapM read = _
  induction xs with
  | nil => simp
  | cons x xs ih =>
      rw [List.map_cons, List.mapM_cons, h x, ih]
      refine bind_guard List.forall_mem_cons ?_
      exact bind_guard (and_iff_left trivial).symm rfl

/-- A value that was written is read, or its default taken where it was left out. -/
theorem ReadsBack.nullable {α : Type} {write : α → Json} {read : Json → Option α} {fits : α → Prop}
    [DecidablePred fits] (h : ReadsBack write read fits) (hnull : ∀ x, write x ≠ .null)
    (value : Option α) :
    withDefault none (nullable? read) (value.map write)
      = if ∀ x ∈ value, fits x then some value else none := by
  cases value with
  | none => simp [withDefault]
  | some x =>
      have hread : nullable? read (write x) = (read (write x)).map some := by
        cases hwrite : write x with
        | null => exact absurd hwrite (hnull x)
        | _ => rfl
      show nullable? read (write x) = _
      rw [hread, h x]
      by_cases hx : fits x
      · simp [hx]
      · simp [hx]

end Json

def IsWord (n : Nat) : Prop :=
  n < 4294967296

instance (n : Nat) : Decidable (IsWord n) :=
  inferInstanceAs (Decidable (n < 4294967296))

theorem readsBack_word : Json.ReadsBack .nat Json.word? IsWord :=
  Json.readsBack_nat _

namespace CompactDiagnostic

/-- The code and the line are words. -/
def Fits (d : CompactDiagnostic) : Prop :=
  IsWord d.code ∧ ∀ line ∈ d.line, IsWord line

instance (d : CompactDiagnostic) : Decidable d.Fits :=
  inferInstanceAs (Decidable (_ ∧ _))

theorem fields?_toJson (d : CompactDiagnostic) :
    Json.fields? ["k", "c", "m", "l"] d.toJson
      = some [some (.text d.category.letter), some (.nat d.code), some (.text d.message),
          d.line.map .nat] := by
  cases hline : d.line with
  | none => simp [toJson, hline, Json.record, Json.fields?, Json.valuesOf]
  | some line => simp [toJson, hline, Json.record, Json.fields?, Json.valuesOf]

theorem alternative?_letter (category : Category) :
    Json.alternative? Category.letters (.text category.letter) = some category := by
  cases category with
  | error => rfl
  | warning => rfl
  | message => rfl

theorem readsBack : Json.ReadsBack toJson ofJson? Fits := by
  intro d
  have hline := readsBack_word.nullable (by simp) d.line
  rw [ofJson?, fields?_toJson]
  show (Json.alternative? Category.letters (.text d.category.letter)).bind _ = _
  rw [alternative?_letter]
  show (Json.word? (.nat d.code)).bind _ = _
  rw [readsBack_word d.code]
  refine Json.bind_guard Iff.rfl ?_
  show (Json.withDefault none (Json.nullable? Json.word?) (d.line.map .nat)).bind _ = _
  rw [hline]
  exact Json.bind_guard (and_iff_left trivial).symm rfl

end CompactDiagnostic

namespace BuildInfo

namespace UnitEntry

theorem fields?_toJson (unit : UnitEntry) :
    Json.fields? ["path", "version", "signature", "isGlobal"] unit.toJson
      = some [some (.text unit.path), some (.text unit.version), unit.signature.map .text,
          some (.bool unit.isGlobal)] := by
  cases hsignature : unit.signature with
  | none => simp [toJson, optionalField, hsignature, Json.record, Json.fields?, Json.valuesOf]
  | some hash => simp [toJson, optionalField, hsignature, Json.record, Json.fields?, Json.valuesOf]

theorem readsBack : Json.ReadsBack toJson ofJson? fun _ => True := by
  intro unit
  obtain ⟨path, version, signature, isGlobal⟩ := unit
  rw [ofJson?, fields?_toJson]
  cases signature with
  | none => rfl
  | some hash => rfl

end UnitEntry

theorem EmitEntry.readsBack : Json.ReadsBack toJson ofJson? fun entry => IsWord entry.unit := by
  intro entry
  have hfields : Json.fields? ["unitIdx", "kind"] entry.toJson
      = some [some (.nat entry.unit), some (.text entry.kind.name)] := by
    simp [toJson, Json.record, Json.fields?, Json.valuesOf]
  have hkind : Json.alternative? EmitKind.names (.text entry.kind.name) = some entry.kind := by
    cases entry.kind with
    | full => rfl
    | types => rfl
  rw [ofJson?, hfields]
  show (Json.word? (.nat entry.unit)).bind _ = _
  rw [readsBack_word entry.unit]
  refine Json.bind_guard (and_iff_left trivial).symm ?_
  show (Json.alternative? EmitKind.names (.text entry.kind.name)).bind _ = _
  rw [hkind]
  rfl

theorem CheckEntry.readsBack : Json.ReadsBack toJson ofJson? fun entry => IsWord entry.unit := by
  intro entry
  have hfields : Json.fields? ["unitIdx", "global"] entry.toJson
      = some [some (.nat entry.unit), some (.bool entry.isGlobal)] := by
    simp [toJson, Json.record, Json.fields?, Json.valuesOf]
  rw [ofJson?, hfields]
  show (Json.word? (.nat entry.unit)).bind _ = _
  rw [readsBack_word entry.unit]
  exact Json.bind_guard (and_iff_left trivial).symm rfl

theorem readsBack_edge : Json.ReadsBack edgeJson (Json.pair? Json.word? Json.word?)
    fun edge => IsWord edge.1 ∧ IsWord edge.2 := by
  intro edge
  show (Json.word? (.nat edge.1)).bind _ = _
  rw [readsBack_word edge.1]
  refine Json.bind_guard Iff.rfl ?_
  show (Json.word? (.nat edge.2)).bind _ = _
  rw [readsBack_word edge.2]
  exact Json.bind_guard (and_iff_left trivial).symm rfl

theorem readsBack_cached : Json.ReadsBack cachedJson
    (Json.pair? Json.word? (Json.list? CompactDiagnostic.ofJson?))
    fun entry => IsWord entry.1 ∧ ∀ d ∈ entry.2, d.Fits := by
  intro entry
  have hlist := CompactDiagnostic.readsBack.list entry.2
  show (Json.word? (.nat entry.1)).bind _ = _
  rw [readsBack_word entry.1]
  refine Json.bind_guard Iff.rfl ?_
  show (Json.list? CompactDiagnostic.ofJson?
    (.list (entry.2.map CompactDiagnostic.toJson))).bind _ = _
  rw [hlist]
  exact Json.bind_guard (and_iff_left trivial).symm rfl

/-! ### Plain layouts -/

theorem plain_optionalField {α : Type} {name : String} {write : α → Json} {value : Option α}
    (h : ∀ x, (write x).Plain) : ∀ field ∈ optionalField name write value, field.2.Plain := by
  cases value with
  | none => simp [optionalField]
  | some x => simpa [optionalField] using h x

theorem plain_cachedJson (entry : Nat × List CompactDiagnostic) : (cachedJson entry).Plain := by
  have hdiagnostic : ∀ d : CompactDiagnostic, d.toJson.Plain := by
    intro d
    rw [CompactDiagnostic.toJson]
    split
    · simp [Json.plain_record, Json.Plain]
    · simp [Json.plain_record, Json.Plain]
  rw [cachedJson, Json.plain_list]
  simp only [List.forall_mem_cons, List.not_mem_nil, false_implies, implies_true, and_true]
  exact ⟨trivial, Json.plain_map hdiagnostic entry.2⟩

theorem UnitEntry.plain_toJson (unit : UnitEntry) : unit.toJson.Plain := by
  rw [UnitEntry.toJson, Json.plain_record]
  simp only [List.forall_mem_append]
  refine ⟨⟨by simp [Json.Plain], ?_⟩, by simp [Json.Plain]⟩
  exact plain_optionalField fun hash => trivial

namespace Document

/-- Positions, codes and line numbers are words, and the cursor is a number of 64 bits. -/
def Fits (d : Document) : Prop :=
  (∀ edge ∈ d.dependencyEdges, IsWord edge.1 ∧ IsWord edge.2)
    ∧ (∀ edge ∈ d.exportEdges, IsWord edge.1 ∧ IsWord edge.2)
    ∧ (∀ entry ∈ d.pendingEmit, IsWord entry.unit)
    ∧ d.pendingEmitCursor < 18446744073709551616
    ∧ (∀ entry ∈ d.pendingCheck, IsWord entry.unit)
    ∧ ∀ entries ∈ d.diagnostics, ∀ entry ∈ entries, IsWord entry.1 ∧ ∀ x ∈ entry.2, x.Fits

instance (d : Document) : Decidable d.Fits :=
  inferInstanceAs (Decidable (_ ∧ _))

theorem fields?_toJson (d : Document) :
    Json.fields? fieldNames d.toJson
      = some [some (.text d.toolVersion), d.optionsHash.map .text, some (.bool d.dependencyTracking),
          some (.list (d.units.map UnitEntry.toJson)),
          some (.list (d.dependencyEdges.map edgeJson)),
          some (.list (d.exportEdges.map edgeJson)),
          some (.list (d.pendingEmit.map EmitEntry.toJson)), some (.nat d.pendingEmitCursor),
          some (.list (d.pendingCheck.map CheckEntry.toJson)),
          d.diagnostics.map fun entries => .list (entries.map cachedJson)] := by
  cases hhash : d.optionsHash with
  | none =>
      cases hdiagnostics : d.diagnostics with
      | none =>
          simp [toJson, fieldNames, optionalField, hhash, hdiagnostics, Json.record, Json.fields?,
            Json.valuesOf]
      | some entries =>
          simp [toJson, fieldNames, optionalField, hhash, hdiagnostics, Json.record, Json.fields?,
            Json.valuesOf]
  | some hash =>
      cases hdiagnostics : d.diagnostics with
      | none =>
          simp [toJson, fieldNames, optionalField, hhash, hdiagnostics, Json.record, Json.fields?,
            Json.valuesOf]
      | some entries =>
          simp [toJson, fieldNames, optionalField, hhash, hdiagnostics, Json.record, Json.fields?,
            Json.valuesOf]

/-- A document is read back from its layout exactly when it fits. -/
theorem ofJson?_toJson (d : Document) : ofJson? d.toJson = if d.Fits then some d else none := by
  have hhash : Json.withDefault none (Json.nullable? Json.text?) (d.optionsHash.map .text)
      = some d.optionsHash := by
    cases d.optionsHash with
    | none => rfl
    | some hash => rfl
  have hunits : Json.list? UnitEntry.ofJson? (.list (d.units.map UnitEntry.toJson))
      = some d.units := (UnitEntry.readsBack.list d.units).trans (if_pos fun _ _ => trivial)
  have hdiagnostics := readsBack_cached.list.nullable (by simp) d.diagnostics
  rw [ofJson?, fields?_toJson]
  -- the fields are read in order, each under its own condition
  show (Json.withDefault none (Json.nullable? Json.text?) (d.optionsHash.map .text)).bind _ = _
  rw [hhash]
  show (Json.list? UnitEntry.ofJson? (.list (d.units.map UnitEntry.toJson))).bind _ = _
  rw [hunits]
  show (edges? (.list (d.dependencyEdges.map edgeJson))).bind _ = _
  rw [edges?, readsBack_edge.list d.dependencyEdges]
  refine Json.bind_guard Iff.rfl ?_
  show (edges? (.list (d.exportEdges.map edgeJson))).bind _ = _
  rw [edges?, readsBack_edge.list d.exportEdges]
  refine Json.bind_guard Iff.rfl ?_
  show (Json.list? EmitEntry.ofJson? (.list (d.pendingEmit.map EmitEntry.toJson))).bind _ = _
  rw [EmitEntry.readsBack.list d.pendingEmit]
  refine Json.bind_guard Iff.rfl ?_
  show (Json.long? (.nat d.pendingEmitCursor)).bind _ = _
  rw [Json.long?, Json.readsBack_nat _ d.pendingEmitCursor]
  refine Json.bind_guard Iff.rfl ?_
  show (Json.list? CheckEntry.ofJson? (.list (d.pendingCheck.map CheckEntry.toJson))).bind _ = _
  rw [CheckEntry.readsBack.list d.pendingCheck]
  refine Json.bind_guard Iff.rfl ?_
  show (Json.withDefault none (Json.nullable? cached?)
    (d.diagnostics.map fun entries => .list (entries.map cachedJson))).bind _ = _
  rw [cached?, hdiagnostics]
  exact Json.bind_guard (and_iff_left trivial).symm rfl

/-! ### Texts -/

theorem plain_toJson (d : Document) : d.toJson.Plain := by
  have hedge : ∀ edge, (edgeJson edge).Plain := by
    intro edge
    simp [edgeJson, Json.plain_list, Json.Plain]
  have hemit : ∀ entry : EmitEntry, entry.toJson.Plain := by
    intro entry
    simp [EmitEntry.toJson, Json.plain_record, Json.Plain]
  have hcheck : ∀ entry : CheckEntry, entry.toJson.Plain := by
    intro entry
    simp [CheckEntry.toJson, Json.plain_record, Json.Plain]
  have hfixed : ∀ field ∈ [("dependencyTracking", .bool d.dependencyTracking),
      ("units", .list (d.units.map UnitEntry.toJson)),
      ("dependencyEdges", .list (d.dependencyEdges.map edgeJson)),
      ("exportEdges", .list (d.exportEdges.map edgeJson)),
      ("pendingEmit", .list (d.pendingEmit.map EmitEntry.toJson)),
      ("pendingEmitCursor", .nat d.pendingEmitCursor),
      ("pendingCheck", .list (d.pendingCheck.map CheckEntry.toJson))], (field.2 : Json).Plain := by
    simp only [List.forall_mem_cons, List.not_mem_nil, false_implies, implies_true, and_true]
    exact ⟨trivial, Json.plain_map UnitEntry.plain_toJson _, Json.plain_map hedge _,
      Json.plain_map hedge _, Json.plain_map hemit _, trivial, Json.plain_map hcheck _⟩
  rw [toJson, Json.plain_record]
  simp only [List.forall_mem_append]
  refine ⟨⟨⟨by simp [Json.Plain], ?_⟩, hfixed⟩, ?_⟩
  · exact plain_optionalField fun hash => trivial
  · exact plain_optionalField fun entries => Json.plain_map plain_cachedJson entries

theorem toolVersion?_toJson (d : Document) : toolVersion? d.toJson = some d.toolVersion := by
  have hfields : Json.fields? ["toolVersion"] d.toJson = some [some (.text d.toolVersion)] :=
    Json.fields?_single d.fields?_toJson List.mem_cons_self
  rw [toolVersion?, hfields]
  rfl

/-- **What is read from the text of a document.**  A document of the expected version that fits is
read back as it was, and one that does not fit is not read. -/
theorem read_text {expected : String} {d : Document} (hversion : d.toolVersion = expected) :
    read expected d.text = if d.Fits then d.decode expected else .error .json := by
  rw [read, text, Json.parse?_pretty d.plain_toJson]
  simp only [toolVersion?_toJson, hversion, ne_eq, not_true_eq_false, if_false, ofJson?_toJson]
  by_cases hfits : d.Fits
  · rw [if_pos hfits, if_pos hfits]
  · rw [if_neg hfits, if_neg hfits]

end Document

end BuildInfo

/-! ### What is read fits -/

namespace Json

section Yields

variable {α β : Type} {read : Json → Option α} {other : Json → Option β} {P : α → Prop} {Q : β → Prop}

/-- Whatever is read has some property. -/
def Yields (read : Json → Option α) (P : α → Prop) : Prop :=
  ∀ j x, read j = some x → P x

theorem yields_natBelow (bound : Nat) : Yields (natBelow? bound) (· < bound) := by
  intro j n h
  cases j with
  | nat m =>
      rw [natBelow?] at h
      split at h
      · rename_i hlt
        cases h
        exact hlt
      · cases h
  | _ => cases h

theorem Yields.list (h : Yields read P) : Yields (list? read) fun xs => ∀ x ∈ xs, P x := by
  intro j xs hread
  cases j with
  | list items =>
      change items.mapM read = some xs at hread
      induction items generalizing xs with
      | nil =>
          cases hread
          exact List.forall_mem_nil P
      | cons item items ih =>
          rw [List.mapM_cons] at hread
          obtain ⟨x, hx, hread⟩ := Option.bind_eq_some_iff.mp hread
          obtain ⟨rest, hrest, hread⟩ := Option.bind_eq_some_iff.mp hread
          cases hread
          exact List.forall_mem_cons.mpr ⟨h item x hx, ih rest hrest⟩
  | _ => cases hread

theorem Yields.pair (h : Yields read P) (hother : Yields other Q) :
    Yields (pair? read other) fun pair => P pair.1 ∧ Q pair.2 := by
  intro j pair hread
  unfold pair? at hread
  split at hread
  · rename_i a b
    obtain ⟨x, hx, hread⟩ := Option.bind_eq_some_iff.mp hread
    obtain ⟨y, hy, hread⟩ := Option.bind_eq_some_iff.mp hread
    cases hread
    exact ⟨h a x hx, hother b y hy⟩
  · cases hread

theorem Yields.nullable (h : Yields read P) : Yields (nullable? read) fun value => ∀ x ∈ value, P x := by
  intro j value hread
  unfold nullable? at hread
  split at hread
  · cases hread
    simp
  · obtain ⟨x, hx, rfl⟩ := Option.map_eq_some_iff.mp hread
    intro y hy
    cases hy
    exact h j x hx

theorem Yields.of_required (h : Yields read P) {field : Option Json} {x : α}
    (hread : required read field = some x) : P x := by
  obtain ⟨j, _, hx⟩ := Option.bind_eq_some_iff.mp hread
  exact h j x hx

theorem Yields.of_withDefault (h : Yields read P) {default x : α} (hdefault : P default)
    {field : Option Json} (hread : withDefault default read field = some x) : P x := by
  cases field with
  | none =>
      cases hread
      exact hdefault
  | some j => exact h j x hread

end Yields

end Json

theorem CompactDiagnostic.yields : Json.Yields ofJson? Fits := by
  intro j d h
  obtain ⟨fields, _, h⟩ := Option.bind_eq_some_iff.mp h
  split at h
  · obtain ⟨category, _, h⟩ := Option.bind_eq_some_iff.mp h
    obtain ⟨code, hcode, h⟩ := Option.bind_eq_some_iff.mp h
    obtain ⟨message, _, h⟩ := Option.bind_eq_some_iff.mp h
    obtain ⟨line, hline, h⟩ := Option.bind_eq_some_iff.mp h
    cases h
    exact ⟨(Json.yields_natBelow _).of_required hcode,
      (Json.yields_natBelow _).nullable.of_withDefault (by simp) hline⟩
  · cases h

namespace BuildInfo

theorem EmitEntry.yields : Json.Yields ofJson? fun entry => IsWord entry.unit := by
  intro j entry h
  obtain ⟨fields, _, h⟩ := Option.bind_eq_some_iff.mp h
  split at h
  · obtain ⟨unit, hunit, h⟩ := Option.bind_eq_some_iff.mp h
    obtain ⟨kind, _, h⟩ := Option.bind_eq_some_iff.mp h
    cases h
    exact (Json.yields_natBelow _).of_required hunit
  · cases h

theorem CheckEntry.yields : Json.Yields ofJson? fun entry => IsWord entry.unit := by
  intro j entry h
  obtain ⟨fields, _, h⟩ := Option.bind_eq_some_iff.mp h
  split at h
  · obtain ⟨unit, hunit, h⟩ := Option.bind_eq_some_iff.mp h
    obtain ⟨isGlobal, _, h⟩ := Option.bind_eq_some_iff.mp h
    cases h
    exact (Json.yields_natBelow _).of_required hunit
  · cases h

/-- Whatever document is read, it fits. -/
theorem Document.yields : Json.Yields ofJson? Fits := by
  intro j d h
  obtain ⟨fields, _, h⟩ := Option.bind_eq_some_iff.mp h
  split at h
  · obtain ⟨toolVersion, _, h⟩ := Option.bind_eq_some_iff.mp h
    obtain ⟨optionsHash, _, h⟩ := Option.bind_eq_some_iff.mp h
    obtain ⟨tracking, _, h⟩ := Option.bind_eq_some_iff.mp h
    obtain ⟨units, _, h⟩ := Option.bind_eq_some_iff.mp h
    obtain ⟨imports, himports, h⟩ := Option.bind_eq_some_iff.mp h
    obtain ⟨exports, hexports, h⟩ := Option.bind_eq_some_iff.mp h
    obtain ⟨emits, hemits, h⟩ := Option.bind_eq_some_iff.mp h
    obtain ⟨cursor, hcursor, h⟩ := Option.bind_eq_some_iff.mp h
    obtain ⟨checks, hchecks, h⟩ := Option.bind_eq_some_iff.mp h
    obtain ⟨diagnostics, hdiagnostics, h⟩ := Option.bind_eq_some_iff.mp h
    cases h
    have hword : Json.Yields Json.word? IsWord := Json.yields_natBelow _
    have hcached := (hword.pair CompactDiagnostic.yields.list).list.nullable
    exact ⟨(hword.pair hword).list.of_withDefault (List.forall_mem_nil _) himports,
      (hword.pair hword).list.of_withDefault (List.forall_mem_nil _) hexports,
      EmitEntry.yields.list.of_withDefault (List.forall_mem_nil _) hemits,
      (Json.yields_natBelow _).of_withDefault (by decide) hcursor,
      CheckEntry.yields.list.of_withDefault (List.forall_mem_nil _) hchecks,
      hcached.of_withDefault (by simp) hdiagnostics⟩
  · cases h

/-- A text that is accepted holds a document that fits and is accepted. -/
theorem Document.exists_of_read {expected stored : String} {decoded : Decoded}
    (h : read expected stored = .ok decoded) :
    ∃ d : Document, d.Fits ∧ d.decode expected = .ok decoded := by
  rw [read] at h
  split at h
  · cases h
  · rename_i j _
    split at h
    · cases h
    · split at h
      · cases h
      · split at h
        · cases h
        · rename_i d hd
          exact ⟨d, yields j d hd, h⟩

end BuildInfo

end Rebuild
