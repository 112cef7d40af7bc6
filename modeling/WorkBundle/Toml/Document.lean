import WorkBundle.Toml.DateTime
import WorkBundle.Toml.Table

/-!
# TOML documents

Values, lines and whole documents. A document is read line by line: a header says which table the
lines after it belong to, and each of these puts one value under a key.
-/

set_option autoImplicit false

namespace WorkBundle.Toml

def numeral? (cs : List Char) : Found Item :=
  match dateTime? cs with
  | some (t, rest) => some (.dateTime t, rest)
  | none =>
    match double? cs with
    | some (bits, rest) => some (.float bits, rest)
    | none => (int? cs).map fun (i, rest) => (.int i, rest)

mutual

/-- A value. `depth` collections may still hold one another. `rounds` bounds the items of one: there
are no more of them than characters are left. -/
def value? (depth rounds : Nat) (cs : List Char) : Found Item :=
  match depth, cs with
  | depth + 1, '[' :: cs => (items? depth rounds cs).map fun (is, rest) => (.array is, rest)
  | depth + 1, '\x7b' :: cs => entries? depth rounds true [] cs
  | 0, '[' :: _ => none
  | 0, '\x7b' :: _ => none
  | _, 't' :: 'r' :: 'u' :: 'e' :: rest => some (.bool true, rest)
  | _, 'f' :: 'a' :: 'l' :: 's' :: 'e' :: rest => some (.bool false, rest)
  | _, '"' :: cs => (string? ('"' :: cs)).map fun (s, rest) => (.text s, rest)
  | _, '\'' :: cs => (string? ('\'' :: cs)).map fun (s, rest) => (.text s, rest)
  | _, cs => numeral? cs
termination_by (depth, 0)

def items? (depth rounds : Nat) (cs : List Char) : Found (List Item) :=
  match rounds, skipLines rounds cs with
  | _, ']' :: rest => some ([], rest)
  | 0, _ => none
  | rounds + 1, cs =>
    match value? depth rounds cs with
    | none => none
    | some (item, rest) =>
      match skipLines rounds rest with
      | ',' :: rest => (items? depth rounds rest).map fun (is, rest) => (item :: is, rest)
      | ']' :: rest => some ([item], rest)
      | _ => none
termination_by (depth, rounds)

/-- The entries of a table in braces, after its opening brace or a comma. They stand on one line,
and no comma follows the last one. -/
def entries? (depth rounds : Nat) (first : Bool) (es : Entries) (cs : List Char) : Found Item :=
  match rounds, skipBlanks cs, first with
  | _, '\x7d' :: rest, true => some (.inline .defined es, rest)
  | 0, _, _ => none
  | rounds + 1, cs, _ =>
    match key? cs with
    | some ((way, key), '=' :: rest) =>
      match value? depth rounds (skipBlanks rest) with
      | none => none
      | some (item, rest) =>
        match es.insertInline way key item, skipBlanks rest with
        | some es, ',' :: rest => entries? depth rounds false es rest
        | some es, '\x7d' :: rest => some (.inline .defined es, rest)
        | _, _ => none
    | _ => none
termination_by (depth, rounds)

end

/-- The document so far, and the header of the table at hand, below which the next entries go
(`Entries.insertBelow`). -/
structure Draft where
  root : Entries := []
  header : List String := []

namespace Draft

def readHeader (d : Draft) (listed : Bool) (cs : List Char) : Option (Draft × List Char) :=
  match key? cs with
  | none => none
  | some ((way, key), rest) =>
    let closed :=
      match listed, rest with
      | true, ']' :: ']' :: rest => some rest
      | false, ']' :: rest => some rest
      | _, _ => none
    match closed.bind endLine?, if listed then d.root.openListed way key else d.root.openTable way key with
    | some rest, some root => some ({ root, header := way ++ [key] }, rest)
    | _, _ => none

def readEntry (d : Draft) (cs : List Char) : Option (Draft × List Char) :=
  match key? cs with
  | some ((way, key), '=' :: rest) =>
    let cs := skipBlanks rest
    match value? (depthLimit - 1) cs.length cs with
    | none => none
    | some (item, rest) =>
      match endLine? rest, d.root.insertBelow d.header way key item with
      | some rest, some root => some ({ d with root }, rest)
      | _, _ => none
  | _ => none

/-- Reads line after line. Each takes a character at least, so as many rounds as there are
characters are enough. -/
def run : Nat → Draft → List Char → Option Entries
  | rounds, d, cs =>
    match rounds, skipBlanks cs with
    | _, [] => some d.root
    | 0, _ => none
    | rounds + 1, c :: cs =>
      let next :=
        match c, cs with
        | '[', '[' :: cs => d.readHeader true cs
        | '[', cs => d.readHeader false cs
        | c, cs =>
          match endLine? (c :: cs) with
          | some rest => some (d, rest)
          | none => d.readEntry (c :: cs)
      match next with
      | some (d, cs) => run rounds d cs
      | none => none

end Draft

def ofText? (text : String) : Option Entries :=
  let cs :=
    match text.toList with
    | '\ufeff' :: cs => cs
    | cs => cs
  Draft.run (cs.length + 1) {} cs

end WorkBundle.Toml
