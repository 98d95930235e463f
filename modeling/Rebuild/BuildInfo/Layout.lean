import Rebuild.BuildInfo.Document
import Rebuild.Json.Reader
import Rebuild.Json.Value

/-!
# The JSON layout of build info documents

* `Document.toJson`, `Document.ofJson?`: a document as a JSON value and back;
* `Document.text`: the stored text, in the pretty layout;
* `Document.read`: the content of a stored text.  The tool version is read first, so a document of
  another version is rejected as such even if its layout differs.

Absent options hashes, signatures, lines and diagnostics are left out.  When reading, everything
but the tool version, the units and the fields that identify an entry has a default.
-/

namespace Rebuild

def EmitKind.names : List (String × EmitKind) :=
  [("full", .full), ("types", .types)]

def Category.letters : List (String × Category) :=
  [("e", .error), ("w", .warning), ("m", .message)]

def Category.letter : Category → String
  | .error => "e"
  | .warning => "w"
  | .message => "m"

namespace CompactDiagnostic

def toJson (d : CompactDiagnostic) : Json :=
  let fields := [("k", Json.text d.category.letter), ("c", .nat d.code), ("m", .text d.message)]
  match d.line with
  | some line => Json.record (fields ++ [("l", .nat line)])
  | none => Json.record fields

def ofJson? (j : Json) : Option CompactDiagnostic := do
  match ← Json.fields? ["k", "c", "m", "l"] j with
  | [category, code, message, line] =>
      return {
        category := ← Json.required (Json.alternative? Category.letters) category
        code := ← Json.required Json.word? code
        message := ← Json.required Json.text? message
        line := ← Json.withDefault none (Json.nullable? Json.word?) line }
  | _ => none

def parse? (text : String) : Option CompactDiagnostic :=
  (Json.parse? text).bind ofJson?

end CompactDiagnostic

namespace BuildInfo

/-- A field that is left out when it has no value. -/
def optionalField {α : Type} (name : String) (write : α → Json) (value : Option α) :
    List (String × Json) :=
  match value with
  | some value => [(name, write value)]
  | none => []

def UnitEntry.toJson (unit : UnitEntry) : Json :=
  Json.record ([("path", .text unit.path), ("version", .text unit.version)]
    ++ optionalField "signature" .text unit.signature ++ [("isGlobal", .bool unit.isGlobal)])

def UnitEntry.ofJson? (j : Json) : Option UnitEntry := do
  match ← Json.fields? ["path", "version", "signature", "isGlobal"] j with
  | [path, version, signature, isGlobal] =>
      return {
        path := ← Json.required Json.text? path
        version := ← Json.required Json.text? version
        signature := ← Json.withDefault none (Json.nullable? Json.text?) signature
        isGlobal := ← Json.withDefault false Json.bool? isGlobal }
  | _ => none

def EmitEntry.toJson (entry : EmitEntry) : Json :=
  Json.record [("unitIdx", .nat entry.unit), ("kind", .text entry.kind.name)]

def EmitEntry.ofJson? (j : Json) : Option EmitEntry := do
  match ← Json.fields? ["unitIdx", "kind"] j with
  | [unit, kind] =>
      return {
        unit := ← Json.required Json.word? unit
        kind := ← Json.required (Json.alternative? EmitKind.names) kind }
  | _ => none

def CheckEntry.toJson (entry : CheckEntry) : Json :=
  Json.record [("unitIdx", .nat entry.unit), ("global", .bool entry.isGlobal)]

def CheckEntry.ofJson? (j : Json) : Option CheckEntry := do
  match ← Json.fields? ["unitIdx", "global"] j with
  | [unit, isGlobal] =>
      return {
        unit := ← Json.required Json.word? unit
        isGlobal := ← Json.withDefault false Json.bool? isGlobal }
  | _ => none

def edgeJson (edge : Nat × Nat) : Json :=
  .list [.nat edge.1, .nat edge.2]

def edges? : Json → Option (List (Nat × Nat)) :=
  Json.list? (Json.pair? Json.word? Json.word?)

def cachedJson (entry : Nat × List CompactDiagnostic) : Json :=
  .list [.nat entry.1, .list (entry.2.map CompactDiagnostic.toJson)]

def cached? : Json → Option (List (Nat × List CompactDiagnostic)) :=
  Json.list? (Json.pair? Json.word? (Json.list? CompactDiagnostic.ofJson?))

namespace Document

def toJson (d : Document) : Json :=
  Json.record ([("toolVersion", .text d.toolVersion)]
    ++ optionalField "optionsHash" .text d.optionsHash
    ++ [("dependencyTracking", .bool d.dependencyTracking),
      ("units", .list (d.units.map UnitEntry.toJson)),
      ("dependencyEdges", .list (d.dependencyEdges.map edgeJson)),
      ("exportEdges", .list (d.exportEdges.map edgeJson)),
      ("pendingEmit", .list (d.pendingEmit.map EmitEntry.toJson)),
      ("pendingEmitCursor", .nat d.pendingEmitCursor),
      ("pendingCheck", .list (d.pendingCheck.map CheckEntry.toJson))]
    ++ optionalField "diagnostics" (fun entries => Json.list (entries.map cachedJson))
      d.diagnostics)

def fieldNames : List String :=
  ["toolVersion", "optionsHash", "dependencyTracking", "units", "dependencyEdges", "exportEdges",
    "pendingEmit", "pendingEmitCursor", "pendingCheck", "diagnostics"]

def ofJson? (j : Json) : Option Document := do
  match ← Json.fields? fieldNames j with
  | [toolVersion, optionsHash, tracking, units, imports, exports, emits, cursor, checks,
      diagnostics] =>
      return {
        toolVersion := ← Json.required Json.text? toolVersion
        optionsHash := ← Json.withDefault none (Json.nullable? Json.text?) optionsHash
        dependencyTracking := ← Json.withDefault true Json.bool? tracking
        units := ← Json.required (Json.list? UnitEntry.ofJson?) units
        dependencyEdges := ← Json.withDefault [] edges? imports
        exportEdges := ← Json.withDefault [] edges? exports
        pendingEmit := ← Json.withDefault [] (Json.list? EmitEntry.ofJson?) emits
        pendingEmitCursor := ← Json.withDefault 0 Json.long? cursor
        pendingCheck := ← Json.withDefault [] (Json.list? CheckEntry.ofJson?) checks
        diagnostics := ← Json.withDefault none (Json.nullable? cached?) diagnostics }
  | _ => none

/-- The tool version of a value, whatever else it holds. -/
def toolVersion? (j : Json) : Option String := do
  match ← Json.fields? ["toolVersion"] j with
  | [toolVersion] => Json.required Json.text? toolVersion
  | _ => none

/-- The stored text of a document. -/
def text (d : Document) : String :=
  d.toJson.pretty

/-- The content of a stored text, which must carry the expected tool version. -/
def read (expected stored : String) : Except Error Decoded :=
  match Json.parse? stored with
  | none => .error .json
  | some j =>
      match toolVersion? j with
      | none => .error .json
      | some found =>
          if found ≠ expected then .error (.versionMismatch expected found)
          else
            match ofJson? j with
            | none => .error .json
            | some d => d.decode expected

end Document

end BuildInfo

end Rebuild
