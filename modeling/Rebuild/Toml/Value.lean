/-!
# TOML documents

A document is a table.  For tables it matters how they came about, because that decides how they
may be extended:

* by a header of their own, which may occur once;
* as a table on the way to a header, which may get a header of its own later;
* by dotted keys, which only further dotted keys of the same table extend;
* inline, which is final.

Tables in an array of tables are extended by further headers of the array; the last one is current.
Numbers, dates and times are not told apart.
-/

namespace Rebuild

/-- How a table came about. -/
inductive TableOrigin where
  | header
  | implied
  | dotted
  | inline
  deriving Repr, DecidableEq

inductive Toml where
  | text (s : String)
  | bool (b : Bool)
  /-- A number, a date or a time. -/
  | scalar
  | list (items : List Toml)
  | table (origin : TableOrigin) (entries : List (String × Toml))
  /-- An array of tables, the current one last. -/
  | tables (rows : List (List (String × Toml)))
  deriving Repr, Inhabited

namespace Toml

abbrev Entries := List (String × Toml)

def replace (key : String) (value : Toml) (entries : Entries) : Entries :=
  entries.map fun entry => if entry.1 = key then (key, value) else entry

/-- Change the table that a header path leads to, creating the tables on the way. -/
def updateAt (path : List String) (change : Entries → Option Entries) (entries : Entries) :
    Option Entries :=
  match path with
  | [] => change entries
  | key :: path =>
      match entries.lookup key with
      | none => (updateAt path change []).map fun sub => entries ++ [(key, .table .implied sub)]
      | some (.table .inline _) => none
      | some (.table origin sub) =>
          (updateAt path change sub).map fun sub => replace key (.table origin sub) entries
      | some (.tables rows) =>
          match rows.getLast? with
          | none => none
          | some row =>
              (updateAt path change row).map fun row =>
                replace key (.tables (rows.dropLast ++ [row])) entries
      | some _ => none

/-- Open the table of a header. -/
def openTable (key : String) (entries : Entries) : Option Entries :=
  match entries.lookup key with
  | none => some (entries ++ [(key, .table .header [])])
  | some (.table .implied sub) => some (replace key (.table .header sub) entries)
  | some _ => none

/-- Open the next table of an array of tables. -/
def openRow (key : String) (entries : Entries) : Option Entries :=
  match entries.lookup key with
  | none => some (entries ++ [(key, .tables [[]])])
  | some (.tables rows) => some (replace key (.tables (rows ++ [[]])) entries)
  | some _ => none

/-- Give a key a value; the keys on the way to it name tables made by dotted keys. -/
def assign (way : List String) (key : String) (value : Toml) (entries : Entries) :
    Option Entries :=
  match way with
  | [] => if (entries.lookup key).isSome then none else some (entries ++ [(key, value)])
  | first :: way =>
      match entries.lookup first with
      | none =>
          (assign way key value []).map fun sub => entries ++ [(first, .table .dotted sub)]
      | some (.table .dotted sub) =>
          (assign way key value sub).map fun sub => replace first (.table .dotted sub) entries
      | some (.table .implied sub) =>
          if way.isEmpty then none
          else
            (assign way key value sub).map fun sub => replace first (.table .implied sub) entries
      | some _ => none

end Toml

end Rebuild
