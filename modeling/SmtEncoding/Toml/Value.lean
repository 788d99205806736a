import SmtEncoding.Double.Basic

/-!
# TOML values

A table is a list of keys with their values, in the order of the document.  Its *origin* says how
it came about, which decides how it may still grow: a table under a header of its own may only get
keys below that header, one that a dotted key or a header implied may get more, and an inline table
is closed to everything outside the braces that it stands in.

`Entries.put` enters a value under a dotted key of a line and `Entries.putInline` under a dotted
key in braces.  `Entries.openTable` and `Entries.openElement` prepare the table that a header opens.
They fail on a key that is there already and on a table that is closed to the way in which it is
reached.
-/

namespace SmtEncoding.Toml

/-- How a table came about. -/
inductive Origin where
  /-- By a header that names it, or as the document itself. -/
  | header
  /-- By a header that names a table below it. -/
  | parent
  /-- By a dotted key. -/
  | dotted
  /-- In braces, or by a dotted key in braces. -/
  | inline
deriving DecidableEq, Repr

/-- A value of a document. -/
inductive Value where
  /-- A text. -/
  | string (text : String)
  /-- A whole number. -/
  | integer (value : Int)
  /-- A number with a fraction or an exponent, an infinity, or not a number. -/
  | float (value : Double)
  /-- A truth value. -/
  | boolean (value : Bool)
  /-- A date, a time, or both. -/
  | dateTime
  /-- Values in brackets. -/
  | array (items : List Value)
  /-- A table. -/
  | table (origin : Origin) (entries : List (String × Value))
  /-- Tables under a repeated header. -/
  | tables (elements : List (List (String × Value)))

/-- The entries of a table, in the order of the document. -/
abbrev Entries := List (String × Value)

namespace Entries

/-- The entries with the value of a key replaced. -/
def replace (t : Entries) (key : String) (v : Value) : Entries :=
  t.map fun entry => if entry.1 = key then (key, v) else entry

/-- The entries without a key. -/
def erase (t : Entries) (key : String) : Entries := t.filter fun entry => entry.1 ≠ key

/-- The origin of a table that is implied on the way to another. -/
def impliedOrigin (byKey : Bool) : Origin := if byKey then .dotted else .parent

/-- Changes the table at the end of a path by `f`.  Tables on the way are made if they are missing,
and a path through tables under a repeated header goes through the last of them.  A dotted key does
not pass through a table with a header of its own. -/
def descend (byKey : Bool) (f : Origin → Entries → Option Entries) :
    List String → Origin → Entries → Option Entries
  | [], origin, t => f origin t
  | key :: path, _, t =>
    match t.lookup key with
    | none => do
      let sub ← descend byKey f path (impliedOrigin byKey) []
      some (t ++ [(key, .table (impliedOrigin byKey) sub)])
    | some (.table .inline _) => none
    | some (.table origin sub) =>
      if byKey && origin == .header then none
      else do
        let sub ← descend byKey f path origin sub
        some (t.replace key (.table origin sub))
    | some (.tables elements) =>
      match elements.getLast? with
      | none => none
      | some last => do
        let last ← descend byKey f path .header last
        some (t.replace key (.tables (elements.dropLast ++ [last])))
    | some _ => none

/-- Enters a value under a key that is not there yet. -/
def insertNew (key : String) (v : Value) (t : Entries) : Option Entries :=
  if (t.lookup key).isSome then none else some (t ++ [(key, v)])

/-- Enters a value under a dotted key of a line, given by its parts before the last and the last.
With parts before the last the table has to be one that dotted keys made, and without any it must
not be. -/
def put (path : List String) (key : String) (v : Value) (origin : Origin) (t : Entries) :
    Option Entries :=
  let insertHere (origin : Origin) (t : Entries) : Option Entries :=
    if (origin == .dotted) == path.isEmpty then none else insertNew key v t
  descend true insertHere path origin t

/-- Enters a value under a dotted key in braces, given by its last part and the parts before it.
Every table on the way has to be an inline table, and may be one with braces of its own. -/
def putInline (key : String) (v : Value) : List String → Entries → Option Entries
  | [], t => insertNew key v t
  | part :: path, t =>
    match t.lookup part with
    | none => do
      let sub ← putInline key v path []
      some (t ++ [(part, .table .inline sub)])
    | some (.table .inline sub) => do
      let sub ← putInline key v path sub
      some (t.replace part (.table .inline sub))
    | some _ => none

/-- Opens the table of a header.  A table that headers below it implied moves to the end. -/
def openTable (path : List String) (key : String) (t : Entries) : Option Entries :=
  let openHere (_ : Origin) (t : Entries) : Option Entries :=
    match t.lookup key with
    | none => some (t ++ [(key, .table .header [])])
    | some (.table .parent sub) => some (t.erase key ++ [(key, .table .header sub)])
    | some _ => none
  descend false openHere path .header t

/-- Opens one more table of a repeated header. -/
def openElement (path : List String) (key : String) (t : Entries) : Option Entries :=
  let openHere (_ : Origin) (t : Entries) : Option Entries :=
    match t.lookup key with
    | none => some (t ++ [(key, .tables [[]])])
    | some (.tables elements) => some (t.replace key (.tables (elements ++ [[]])))
    | some _ => none
  descend false openHere path .header t

end Entries

end SmtEncoding.Toml
