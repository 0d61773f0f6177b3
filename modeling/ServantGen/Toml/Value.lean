import ServantGen.Json.Basic

/-!
# TOML documents

Values, and the tables of a document while it is read. A table may be opened once by a
header. A table that a longer header implies may still be opened, and may be added to by
dotted keys. A table that dotted keys made can be added to by dotted keys only. Values are
closed.
-/

namespace ServantGen

/-- A TOML value. Numbers, dates and times keep their text: nothing is known about the size of
a number. -/
inductive Toml where
  | string (text : String)
  | integer (text : String)
  | float (text : String)
  | bool (value : Bool)
  | moment (text : String)
  | array (items : List Toml)
  | table (entries : List (String × Toml))
  deriving Repr, Inhabited

namespace Toml

/-- Why a text is not TOML. -/
inductive Fault where
  | syntaxError
  /-- A key or a table is defined again. -/
  | duplicate
  | tooDeep
  deriving DecidableEq, Repr

inductive TableOrigin where
  /-- By its own header. -/
  | header
  /-- By the header of a table inside it. -/
  | implied
  | dotted
  deriving DecidableEq, Repr

/-- A part of a document that is being read. -/
inductive Draft where
  | closed (value : Toml)
  | table (origin : TableOrigin) (entries : List (String × Draft))
  /-- A table for each header in double brackets; only the last can still grow. -/
  | tables (earlier : List (List (String × Draft))) (last : List (String × Draft))
  deriving Inhabited

mutual

def Draft.finish : Draft → Toml
  | .closed value => value
  | .table _ entries => .table (finishEntries entries)
  | .tables earlier last => .array (finishTables earlier ++ [.table (finishEntries last)])

/-- The values of the entries of a table. -/
def Draft.finishEntries : List (String × Draft) → List (String × Toml)
  | [] => []
  | (key, draft) :: rest => (key, draft.finish) :: finishEntries rest

def Draft.finishTables : List (List (String × Draft)) → List Toml
  | [] => []
  | entries :: rest => .table (finishEntries entries) :: finishTables rest

end

/-- The entries of a table that is being read. -/
abbrev DraftTable := Entries Draft

namespace DraftTable

/-- Change the table that a path leads to. Tables on the way are made when they are missing;
dotted keys must not lead through a table with a header. -/
def within (dotted : Bool) (change : DraftTable → Except Fault DraftTable) :
    List String → DraftTable → Except Fault DraftTable
  | [], entries => change entries
  | key :: path, entries =>
    match Entries.get? key entries with
    | none => do
      let inner ← within dotted change path []
      return entries ++ [(key, .table (if dotted then .dotted else .implied) inner)]
    | some (.table origin inner) =>
      if dotted && origin == .header then .error .duplicate
      else do
        let inner ← within dotted change path inner
        return Entries.put key (.table origin inner) entries
    | some (.tables earlier last) =>
      if dotted then .error .duplicate
      else do
        let last ← within dotted change path last
        return Entries.put key (.tables earlier last) entries
    | some (.closed _) => .error .duplicate

def openTable (key : String) (entries : DraftTable) : Except Fault DraftTable :=
  match Entries.get? key entries with
  | none => .ok (entries ++ [(key, .table .header [])])
  | some (.table .implied inner) => .ok (Entries.put key (.table .header inner) entries)
  | some _ => .error .duplicate

/-- Open a further table of a header in double brackets. -/
def openElement (key : String) (entries : DraftTable) : Except Fault DraftTable :=
  match Entries.get? key entries with
  | none => .ok (entries ++ [(key, .tables [] [])])
  | some (.tables earlier last) => .ok (Entries.put key (.tables (earlier ++ [last]) []) entries)
  | some _ => .error .duplicate

def define (key : String) (value : Toml) (entries : DraftTable) : Except Fault DraftTable :=
  if Entries.has entries key then .error .duplicate else .ok (entries ++ [(key, .closed value)])

def defineAt (keys : List String) (value : Toml) (entries : DraftTable) :
    Except Fault DraftTable :=
  match keys.getLast? with
  | none => .error .syntaxError
  | some key => within true (define key value) keys.dropLast entries

end DraftTable

end Toml

end ServantGen
