/-!
# TOML values and tables

A table grows key by key while a text is read. How a table came to be decides who may add to it: a
table that was only passed through on the way to another one may still get a header of its own, a
table made by a key with points may be added to by such keys, and any other one is closed.
-/

set_option autoImplicit false

namespace WorkBundle.Toml

/-- How a table came to be: by a header of its own or between braces (`defined`), on the way of a
header to another table (`passed`), or by a key with points (`dotted`). That decides who may still
add to it. -/
inductive Origin where
  | defined
  | passed
  | dotted
  deriving DecidableEq, Repr

/-- What a key may hold. Date-times are kept as text, and the tables of a list of tables come last
first, since a header adds to the last one. -/
inductive Item where
  | text (s : String)
  | int (i : Int)
  | float (bits : UInt64)
  | bool (b : Bool)
  | dateTime (text : String)
  | array (items : List Item)
  | inline (origin : Origin) (entries : List (String × Item))
  | table (origin : Origin) (entries : List (String × Item))
  | tables (tables : List (List (String × Item)))
  deriving Repr, Inhabited

abbrev Entries := List (String × Item)

namespace Entries

def put (es : Entries) (key : String) (item : Item) : Entries :=
  if es.any (·.1 == key) then es.map fun e => if e.1 == key then (key, item) else e
  else es ++ [(key, item)]

def add (es : Entries) (key : String) (item : Item) : Option Entries :=
  if es.any (·.1 == key) then none else some (es ++ [(key, item)])

/-- Changes the table that a way of keys with points leads to, and makes the tables that are missing
on it. The way may lead through tables that such keys may add to, and through the last one of a list
of tables; it must end in a table made by such keys, unless it leads nowhere. `origin` is how the
table at hand came to be. -/
def alongKey (change : Entries → Option Entries) :
    List String → Origin → Entries → Option Entries
  | [], origin, es => if origin == .dotted then change es else none
  | part :: way, _, es =>
    match es.lookup part with
    | none => (alongKey change way .dotted []).map fun t => es.put part (.table .dotted t)
    | some (.table origin t) =>
      if origin == .defined then none
      else (alongKey change way origin t).map fun t => es.put part (.table origin t)
    | some (.tables (t :: ts)) =>
      (alongKey change way .defined t).map fun t => es.put part (.tables (t :: ts))
    | some _ => none

def insert (es : Entries) (way : List String) (key : String) (item : Item) : Option Entries :=
  if way.isEmpty then es.add key item else alongKey (·.add key item) way .defined es

def insertInline (es : Entries) (way : List String) (key : String) (item : Item) : Option Entries :=
  match way with
  | [] => es.add key item
  | part :: way =>
    match es.lookup part with
    | none => (insertInline [] way key item).map fun t => es.put part (.inline .dotted t)
    | some (.inline .dotted t) =>
      (insertInline t way key item).map fun t => es.put part (.inline .dotted t)
    | some _ => none

/-- Changes the table that the parts of a header in front of its last one lead to, and makes the
tables that are missing on the way. The way may lead through any table, and through the last one of
a list of tables. -/
def alongHeader (change : Entries → Option Entries) :
    List String → Entries → Option Entries
  | [], es => change es
  | part :: way, es =>
    match es.lookup part with
    | none => (alongHeader change way []).map fun t => es.put part (.table .passed t)
    | some (.table origin t) =>
      (alongHeader change way t).map fun t => es.put part (.table origin t)
    | some (.tables (t :: ts)) =>
      (alongHeader change way t).map fun t => es.put part (.tables (t :: ts))
    | some _ => none

/-- Opens the table of a header. It must be new, or one that was only passed through. -/
def openTable (es : Entries) (way : List String) (key : String) : Option Entries :=
  alongHeader (fun es =>
    match es.lookup key with
    | none => some (es.put key (.table .defined []))
    | some (.table .passed t) => some (es.put key (.table .defined t))
    | some _ => none) way es

def openListed (es : Entries) (way : List String) (key : String) : Option Entries :=
  alongHeader (fun es =>
    match es.lookup key with
    | none => some (es.put key (.tables [[]]))
    | some (.tables ts) => some (es.put key (.tables ([] :: ts)))
    | some _ => none) way es

/-- Puts an item under a key into the table of a header, which was opened before (`openTable`,
`openListed`). -/
def insertBelow (es : Entries) (header : List String) (way : List String) (key : String) (item : Item) :
    Option Entries :=
  alongHeader (·.insert way key item) header es

end Entries

end WorkBundle.Toml
