import WorkBundle.Yaml.Block
import WorkBundle.Yaml.Plain
import WorkBundle.Yaml.Quoted
import WorkBundle.Yaml.TagText

/-!
# From a YAML text to its tokens

The reader goes through the text once. Two things are known only later than they are needed: that
a scalar was a key (when the colon comes), and that a block ended (when a line is indented less).
For the first, the reader remembers where a key may have begun (`Candidate`) and puts the tokens
that announce it in front of it afterwards; for the second it keeps the columns of the open
blocks.
-/

set_option autoImplicit false

namespace WorkBundle.Yaml

/-- A place where a key may have begun, which only a colon later on will tell. It is remembered by
the number of tokens before it, so that the key can be inserted there (`Lexer.insert`). -/
structure Candidate where
  index : Nat
  line : Nat
  column : Nat
  required : Bool
  deriving Repr

/-- Is a candidate still possible here? A key stands on one line and is at most 1024 characters
long. -/
def Candidate.isAlive (k : Candidate) (c : Cursor) : Bool :=
  k.line == c.line && c.column ≤ k.column + 1024

/-- The reader at a place between two tokens: the tokens so far, last first, and their number; the
columns of the open blocks, innermost first; whether a key of a block may begin here; and the
candidate for a key at hand, with those outside of each open bracket. -/
structure Lexer where
  cursor : Cursor
  tokens : List Token := []
  count : Nat := 0
  blocks : List Nat := []
  keyAllowed : Bool := true
  candidate : Option Candidate := none
  outer : List (Option Candidate) := []

namespace Lexer

def inBrackets (l : Lexer) : Bool := !l.outer.isEmpty

def push (l : Lexer) (t : Token) : Lexer := { l with tokens := t :: l.tokens, count := l.count + 1 }

def insert (l : Lexer) (index : Nat) (t : Token) : Lexer :=
  let later := l.count - index
  { l with tokens := l.tokens.take later ++ t :: l.tokens.drop later, count := l.count + 1 }

def skip (l : Lexer) (n : Nat) : Lexer := { l with cursor := l.cursor.skip n }

def dropCandidate (l : Lexer) : Option Lexer :=
  if l.candidate.any (·.required) then none else some { l with candidate := none }

def addCandidate (l : Lexer) : Option Lexer :=
  if l.keyAllowed then do
    let l ← l.dropCandidate
    let required := !l.inBrackets && l.blocks.head? == some l.cursor.column
    some { l with candidate := some ⟨l.count, l.cursor.line, l.cursor.column, required⟩ }
  else some l

def dropStale (l : Lexer) : Option Lexer :=
  let stale : Option Candidate → Bool := fun k => k.any fun k => !k.isAlive l.cursor
  let lost : Option Candidate → Bool := fun k => stale k && k.any (·.required)
  if lost l.candidate || l.outer.any lost then none
  else
    some { l with
      candidate := if stale l.candidate then none else l.candidate
      outer := l.outer.map fun k => if stale k then none else k }

/-- Opens a block in a column that is deeper than the block around it. `place` is the number of the
token in front of which it opens, or else it opens here. -/
def openBlock (l : Lexer) (column : Nat) (place : Option Nat) (t : Token) : Lexer :=
  if !l.inBrackets && l.blocks.head?.all (· < column) then
    let l := { l with blocks := column :: l.blocks }
    match place with
    | some index => l.insert index t
    | none => l.push t
  else l

/-- Closes the blocks that a token in this column does not belong to; without a column, all of them.
-/
def closeBlocks (l : Lexer) (column : Option Nat) : Lexer :=
  if l.inBrackets then l
  else
    let closed := l.blocks.takeWhile fun b => column.all (· < b)
    { l with
      blocks := l.blocks.drop closed.length
      tokens := List.replicate closed.length .blockEnd ++ l.tokens
      count := l.count + closed.length }

def leaveBlocks (l : Lexer) : Option Lexer := do
  let l ← (l.closeBlocks none).dropCandidate
  some { l with keyAllowed := false }

def directive (l : Lexer) : Option Lexer := do
  let l ← l.leaveBlocks
  let (t, rest) ← readDirective (l.cursor.rest.drop 1)
  let cursor ← ({ l.cursor with rest, column := 1 } : Cursor).skipLineEnd?
  some { l.push t with cursor }

def marker (l : Lexer) (t : Token) : Option Lexer := do
  let l ← l.leaveBlocks
  some ((l.push t).skip 3)

def openBracket (l : Lexer) (t : Token) : Option Lexer := do
  let l ← l.addCandidate
  some (({ l with candidate := none, outer := l.candidate :: l.outer, keyAllowed := true }.push t).skip 1)

def closeBracket (l : Lexer) (t : Token) : Option Lexer := do
  let l ← l.dropCandidate
  let l := { l with candidate := l.outer.head?.getD l.candidate, outer := l.outer.drop 1, keyAllowed := false }
  some ((l.push t).skip 1)

def flowEntry (l : Lexer) : Option Lexer := do
  let l ← l.dropCandidate
  some (({ l with keyAllowed := true }.push .flowEntry).skip 1)

def openEntry (l : Lexer) (t : Token) : Option Lexer :=
  if l.inBrackets then some l
  else if l.keyAllowed then some (l.openBlock l.cursor.column none t)
  else none

def blockEntry (l : Lexer) : Option Lexer := do
  let l ← (← l.openEntry .blockSeqStart).dropCandidate
  some (({ l with keyAllowed := true }.push .blockEntry).skip 1)

def key (l : Lexer) : Option Lexer := do
  let l ← (← l.openEntry .blockMapStart).dropCandidate
  some (({ l with keyAllowed := !l.inBrackets }.push .key).skip 1)

/-- A colon. If a key may have begun before, it did, and its token goes in front of what was read
since. -/
def value (l : Lexer) : Option Lexer := do
  let l ←
    match l.candidate with
    | some k =>
      let l := (l.insert k.index .key).openBlock k.column (some k.index) .blockMapStart
      some { l with candidate := none, keyAllowed := false }
    | none => (l.openEntry .blockMapStart).map fun l => { l with keyAllowed := !l.inBrackets }
  some ((l.push .value).skip 1)

def name (l : Lexer) (t : String → Token) : Option Lexer := do
  let l ← l.addCandidate
  let rest := l.cursor.rest.drop 1
  let name := rest.takeWhile isNameChar
  let after := rest.dropWhile isNameChar
  if !name.isEmpty && (endsWord after || after.head?.any ("?:,]\x7d%@`".toList.contains ·)) then
    some ({ l with keyAllowed := false }.push (t (String.ofList name)) |>.skip (name.length + 1))
  else none

def tag (l : Lexer) : Option Lexer := do
  let l ← l.addCandidate
  let (t, rest) ← readTag l.cursor.rest
  if endsWord rest || (l.inBrackets && rest.head? == some ',') then
    some ({ l with keyAllowed := false }.push t |>.skip (l.cursor.rest.length - rest.length))
  else none

def block (l : Lexer) (literal : Bool) : Option Lexer := do
  let l ← l.dropCandidate
  let (text, cursor) ← readBlock literal l.blocks.head? (l.cursor.skip 1)
  some { l.push (.scalar text (if literal then .literal else .folded)) with cursor, keyAllowed := true }

def quoted (l : Lexer) (double : Bool) : Option Lexer := do
  let l ← l.addCandidate
  let c := l.cursor
  let (text, cursor) ← readQuoted double [] none c.line (c.column + 1) (c.rest.drop 1)
  let style : Style := if double then .doubleQuoted else .singleQuoted
  some { l.push (.scalar text style) with cursor, keyAllowed := false }

def plain (l : Lexer) : Option Lexer := do
  let l ← l.addCandidate
  let c := l.cursor
  let indent := l.blocks.head?.elim 0 (· + 1)
  let s ← readPlain l.inBrackets indent [] none c.line c.column c.rest
  some { l.push (.scalar s.text .plain) with cursor := s.cursor, keyAllowed := s.endsLine }

def isMark (c : Char) : Bool := "-?:,[]\x7b\x7d#&*!|>'\"%@`".toList.contains c

def token (l : Lexer) : Option Lexer :=
  match l.cursor.rest with
  | [] => none
  | c :: cs =>
    let flow := l.inBrackets
    let atStart := l.cursor.column == 0
    if atStart && c == '%' then l.directive
    else if atStart && startsMarker (c :: cs) then
      l.marker (if c == '-' then .documentStart else .documentEnd)
    else if c == '[' then l.openBracket .flowSeqStart
    else if c == '\x7b' then l.openBracket .flowMapStart
    else if c == ']' then l.closeBracket .flowSeqEnd
    else if c == '\x7d' then l.closeBracket .flowMapEnd
    else if c == ',' then l.flowEntry
    else if c == '-' && endsWord cs then l.blockEntry
    else if c == '?' && (flow || endsWord cs) then l.key
    else if c == ':' && (flow || endsWord cs) then l.value
    else if c == '*' then l.name .alias
    else if c == '&' then l.name .anchor
    else if c == '!' then l.tag
    else if c == '|' && !flow then l.block true
    else if c == '>' && !flow then l.block false
    else if c == '\'' then l.quoted false
    else if c == '"' then l.quoted true
    else if !isBlank c && (!isMark c || c == '-' || (!flow && (c == '?' || c == ':'))) then l.plain
    else none

/-- Goes to the next token: past blanks, comments and line ends, and out of the blocks that end
there. -/
def advance (l : Lexer) : Option Lexer := do
  let (keyAllowed, cursor) :=
    Cursor.toToken l.inBrackets false l.keyAllowed l.cursor.line l.cursor.column l.cursor.rest
  let l ← { l with keyAllowed, cursor }.dropStale
  some (l.closeBlocks (some cursor.column))

def finish (l : Lexer) : Option (List Token) := do
  let l ← (l.closeBlocks none).dropCandidate
  some l.tokens.reverse

/-- Reads token after token. Each takes a character at least, so as many rounds as there are
characters, and one more, are enough. -/
def run : Nat → Lexer → Option (List Token)
  | 0, _ => none
  | rounds + 1, l => do
    let l ← l.advance
    if l.cursor.rest.isEmpty then l.finish else run rounds (← l.token)

end Lexer

def Token.ofText? (text : String) : Option (List Token) :=
  if text.all isAllowed then
    let cs := plainBreaks text.toList
    Lexer.run (cs.length + 1) { cursor := { rest := cs } }
  else none

end WorkBundle.Yaml
