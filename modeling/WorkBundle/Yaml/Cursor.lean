/-!
# Places in a YAML text

What is left of a text, and where that is. Indentation matters in YAML, so a `Cursor` knows its
line and column; both count from zero. The text has been through `plainBreaks`, so a line ends
with a line feed or with one of the two separators that stand for themselves.
-/

set_option autoImplicit false

namespace WorkBundle.Yaml

def isBreak (c : Char) : Bool := c == '\n' || c == '\u2028' || c == '\u2029'

def isBlank (c : Char) : Bool := c == ' ' || c == '\t'

def isNameChar (c : Char) : Bool := c.isAlphanum || c == '_' || c == '-'

def endsWord : List Char → Bool
  | [] => true
  | c :: _ => isBlank c || isBreak c

def endsLine : List Char → Bool
  | [] => true
  | c :: _ => isBreak c

def startsMarker : List Char → Bool
  | '-' :: '-' :: '-' :: cs => endsWord cs
  | '.' :: '.' :: '.' :: cs => endsWord cs
  | _ => false

def isAllowed (c : Char) : Bool :=
  c == '\t' || c == '\n' || c == '\r' || (' ' ≤ c && c ≤ '~') || c == '\u0085' ||
    ('\u00a0' ≤ c && c != '\ufffe' && c != '\uffff')

/-- The text with a line feed for each carriage return, for the two together and for each next line
character, so that `isBreak` has fewer cases to know. -/
def plainBreaks : List Char → List Char
  | '\r' :: '\n' :: cs => '\n' :: plainBreaks cs
  | '\r' :: cs => '\n' :: plainBreaks cs
  | '\u0085' :: cs => '\n' :: plainBreaks cs
  | c :: cs => c :: plainBreaks cs
  | [] => []

/-- A place in a text, with its line and its column. The grammar of blocks depends on columns, so
every step past characters has to count them. -/
structure Cursor where
  rest : List Char
  line : Nat := 0
  column : Nat := 0
  deriving Repr, Inhabited

namespace Cursor

def skip (c : Cursor) (n : Nat) : Cursor :=
  { c with rest := c.rest.drop n, column := c.column + n }

def nextLine (c : Cursor) : Cursor :=
  { rest := c.rest.drop 1, line := c.line + 1, column := 0 }

def skipWhile (c : Cursor) (p : Char → Bool) : Cursor :=
  let taken := c.rest.takeWhile p
  { c with rest := c.rest.dropWhile p, column := c.column + taken.length }

def skipLineEnd? (c : Cursor) : Option Cursor :=
  let c := c.skipWhile isBlank
  let c := if c.rest.head? == some '#' then c.skipWhile (!isBreak ·) else c
  match c.rest with
  | [] => some c
  | b :: _ => if isBreak b then some c.nextLine else none

/-- Past blanks, comments and line ends, up to the next token. Says also whether a line ended. A tab
counts as a blank only where no key of a block may start: inside brackets, or when something stands
on the line already. A byte order mark may start a line, and takes a column of it. -/
def toToken (inBrackets : Bool) : Bool → Bool → Nat → Nat → List Char → Bool × Cursor
  | _, keyAllowed, line, column, [] => (keyAllowed, ⟨[], line, column⟩)
  | inComment, keyAllowed, line, column, c :: cs =>
    if isBreak c then toToken inBrackets false (keyAllowed || !inBrackets) (line + 1) 0 cs
    else if inComment || c == ' ' || (c == '\t' && (inBrackets || !keyAllowed)) ||
        (c == '\ufeff' && column == 0) then
      toToken inBrackets inComment keyAllowed line (column + 1) cs
    else if c == '#' then toToken inBrackets true keyAllowed line (column + 1) cs
    else (keyAllowed, ⟨c :: cs, line, column⟩)

end Cursor

end WorkBundle.Yaml
