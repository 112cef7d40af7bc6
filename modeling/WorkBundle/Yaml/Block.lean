import WorkBundle.Yaml.Cursor

/-!
# Block scalars

A scalar whose lines stand below a bar (each line as it is) or a greater-than sign (lines folded),
told apart from the rest of the document by their indentation. The header may say how deep the
indentation is, and what becomes of the line ends at the end.
-/

set_option autoImplicit false

namespace WorkBundle.Yaml

/-- What becomes of the line ends after the last line of a block scalar: all go, only the first one
stays, or all stay. -/
inductive Chomping where
  | strip
  | clip
  | keep
  deriving DecidableEq, Repr

/-- Reads the two indicators after the bar, which may stand in either order: the chomping, and how
much deeper the lines are indented than the block around them. -/
def readBlockHeader (cs : List Char) : Option (Chomping × Option Nat × Nat) :=
  let chomping? : List Char → Option Chomping
    | '+' :: _ => some .keep
    | '-' :: _ => some .strip
    | _ => none
  let depth? : List Char → Option Nat
    | c :: _ => if '0' ≤ c && c ≤ '9' then some (c.toNat - '0'.toNat) else none
    | [] => none
  let header : Chomping × Option Nat × Nat :=
    match chomping? cs, depth? cs with
    | some chomping, _ =>
      match depth? (cs.drop 1) with
      | some depth => (chomping, some depth, 2)
      | none => (chomping, none, 1)
    | none, some depth =>
      match chomping? (cs.drop 1) with
      | some chomping => (chomping, some depth, 2)
      | none => (.clip, some depth, 1)
    | none, none => (.clip, none, 0)
  if header.2.1 == some 0 then none else some header

/-- Reads the empty lines before the first line with something on it, as line ends, last first.
Without a known indentation the deepest of the lines seen here sets it, but it is never less than
`least`. Says the indentation, too. -/
def readBlockStart (least : Nat) (indent : Option Nat) (deepest : Nat) (breaks : List Char)
    (line column : Nat) : List Char → Option (List Char × Nat × Cursor)
  | [] => some (breaks, indent.getD (max least (max deepest column)), ⟨[], line, column⟩)
  | c :: cs =>
    let outside := indent.all (column < ·)
    if c == ' ' && outside then
      readBlockStart least indent deepest breaks line (column + 1) cs
    else if c == '\t' && outside then none
    else if isBreak c then
      readBlockStart least indent (max deepest column) (c :: breaks) (line + 1) 0 cs
    else some (breaks, indent.getD (max least (max deepest column)), ⟨c :: cs, line, column⟩)

/-- The lines of a block scalar that have been read: the text (last character first), the end of the
last line with something on it, the empty lines after that one, and whether it began with a blank.
-/
structure BlockText where
  text : List Char := []
  lineEnd : Option Char := none
  empties : List Char := []
  blankLed : Bool := false
  deriving Repr

namespace BlockText

/-- A line begins with this character. Folding joins it to the line before by a blank, unless one of
the two begins with a blank itself. -/
def newLine (b : BlockText) (literal : Bool) (c : Char) : BlockText :=
  let folds := !literal && b.lineEnd == some '\n' && !b.blankLed && !isBlank c
  let joint :=
    if folds then (if b.empties.isEmpty then [' '] else b.empties)
    else b.empties ++ b.lineEnd.toList
  { text := c :: (joint ++ b.text), blankLed := isBlank c }

def finish (b : BlockText) (chomping : Chomping) : String :=
  let tail :=
    match chomping with
    | .strip => []
    | .clip => b.lineEnd.toList
    | .keep => b.empties ++ b.lineEnd.toList
  String.ofList (tail ++ b.text).reverse

end BlockText

/-- Reads the lines of a block scalar, from the first one with something on it. `within` tells
whether a line is going on, or its indentation. -/
def readBlockLines (literal : Bool) (indent : Nat) :
    BlockText → Bool → Nat → Nat → List Char → Option (BlockText × Cursor)
  | b, _, line, column, [] => some (b, ⟨[], line, column⟩)
  | b, true, line, column, c :: cs =>
    if isBreak c then
      readBlockLines literal indent { b with lineEnd := some c, empties := [] } false (line + 1) 0 cs
    else readBlockLines literal indent { b with text := c :: b.text } true line (column + 1) cs
  | b, false, line, column, c :: cs =>
    if c == ' ' && column < indent then
      readBlockLines literal indent b false line (column + 1) cs
    else if c == '\t' && column < indent then none
    else if isBreak c then
      readBlockLines literal indent { b with empties := c :: b.empties } false (line + 1) 0 cs
    else if column == indent then
      readBlockLines literal indent (b.newLine literal c) true line (column + 1) cs
    else some (b, ⟨c :: cs, line, column⟩)

/-- Reads a block scalar after its bar. `outer` is the column of the block around it, if there is
one. -/
def readBlock (literal : Bool) (outer : Option Nat) (c : Cursor) : Option (String × Cursor) := do
  let (chomping, depth, length) ← readBlockHeader c.rest
  let c ← (c.skip length).skipLineEnd?
  let least := outer.elim 1 (· + 1)
  let indent := depth.map fun d => outer.getD 0 + d
  let (breaks, indent, c) ← readBlockStart least indent 0 [] c.line c.column c.rest
  let (b, c) ← readBlockLines literal indent { empties := breaks } false c.line c.column c.rest
  some (b.finish chomping, c)

end WorkBundle.Yaml
