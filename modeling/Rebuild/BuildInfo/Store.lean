import Rebuild.Storage.Basic

/-!
# Stores of build info documents

Where the text of a build info document lives between runs.  A store may keep it in the file system
that the host works on, so every operation takes and returns the state of the host.

* `Store`: the operations of a store;
* `MemoryStore`: the document lives as long as the process;
* `FileStore`: the document is a file;
* `AnyStore`: one of the two, chosen when the program runs;
* `RefusingStore`: never saves anything, for trying out failures.
-/

namespace Rebuild

/-- A store with state `τ` beside a host with state `η`. -/
class Store (τ η : Type) where
  /-- The stored document, if there is one. -/
  load : τ → η → Except Error (Option String)
  /-- Replace the stored document. -/
  save : τ → η → String → Except Error Unit × τ × η
  /-- Forget the stored document. -/
  clear : τ → η → Except Error Unit × τ × η

/-! ### In memory -/

/-- A store that lives as long as the process. -/
structure MemoryStore where
  document : Option String := none
  deriving Repr, DecidableEq

instance {η : Type} : Store MemoryStore η where
  load store _ := .ok store.document
  save _ host document := (.ok (), ⟨some document⟩, host)
  clear _ host := (.ok (), ⟨none⟩, host)

/-! ### In a file -/

structure FileStore where
  path : DiskPath
  deriving Repr, DecidableEq

namespace FileStore

variable {σ : Type} [Storage σ]

/-- The text of the file, if there is a file. -/
def load (store : FileStore) (s : σ) : Except Error (Option String) :=
  if Storage.isFile s store.path then
    match Storage.readText s store.path with
    | .ok document => .ok (some document)
    | .error _ => .error (.other ("reading build info " ++ Text.quotePath store.path))
  else .ok none

def save (store : FileStore) (s : σ) (document : String) : Except Error Unit × σ :=
  match Storage.write s store.path (Text.Utf8.encode document) with
  | (.ok (), s) => (.ok (), s)
  | (.error _, s) => (.error (.other ("writing build info " ++ Text.quotePath store.path)), s)

/-- Remove the file, if something is there. -/
def clear (store : FileStore) (s : σ) : Except Error Unit × σ :=
  if Storage.present s store.path then Storage.remove s store.path else (.ok (), s)

end FileStore

instance {η σ : Type} [Storage σ] [HasStorage η σ] : Store FileStore η where
  load store host := store.load (HasStorage.storage host)
  save store host document :=
    let (outcome, s) := store.save (HasStorage.storage host) document
    (outcome, store, HasStorage.withStorage host s)
  clear store host :=
    let (outcome, s) := store.clear (HasStorage.storage host)
    (outcome, store, HasStorage.withStorage host s)

/-! ### Either -/

inductive AnyStore where
  | memory (store : MemoryStore)
  | file (store : FileStore)
  deriving Repr, DecidableEq

instance {η σ : Type} [Storage σ] [HasStorage η σ] : Store AnyStore η where
  load store host :=
    match store with
    | .memory m => Store.load m host
    | .file f => Store.load f host
  save store host document :=
    match store with
    | .memory m =>
        let (outcome, m, host) := Store.save m host document
        (outcome, .memory m, host)
    | .file f =>
        let (outcome, f, host) := Store.save f host document
        (outcome, .file f, host)
  clear store host :=
    match store with
    | .memory m =>
        let (outcome, m, host) := Store.clear m host
        (outcome, .memory m, host)
    | .file f =>
        let (outcome, f, host) := Store.clear f host
        (outcome, .file f, host)

/-! ### Refusing -/

/-- A store that is empty and refuses every document. -/
structure RefusingStore where
  deriving Repr, DecidableEq

instance {η : Type} : Store RefusingStore η where
  load _ _ := .ok none
  save store host _ := (.error (.config "store refused"), store, host)
  clear store host := (.ok (), store, host)

end Rebuild
