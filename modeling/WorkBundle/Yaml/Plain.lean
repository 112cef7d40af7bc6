import WorkBundle.Yaml.Gap

/-!
# Plain scalars

A scalar without quotes. It ends where something follows that only the structure of the document
can mean: a colon with a blank after it, a comment, a bracket or comma inside brackets, a line
that is not indented enough, a marker between documents.
-/

set_option autoImplicit false

namespace WorkBundle.Yaml

def isFlowMark (c : Char) : Bool := c == ',' || c == '[' || c == ']' || c == '\x7b' || c == '\x7d'

structure PlainScalar where
  text : String
  endsLine : Bool
  cursor : Cursor

def endsPlainWord (inBrackets : Bool) : List Char → Bool
  | ':' :: cs => endsWord cs
  | c :: _ => inBrackets && isFlowMark c
  | [] => true

def isBadColon (inBrackets : Bool) : List Char → Bool
  | ':' :: c :: _ => inBrackets && (isFlowMark c || c == '?')
  | _ => false

/-- Reads a plain scalar. `indent` is the least column at which a later line may go on, `text` is
what has been read, last character first, and `gap` the blanks behind it, which count only if
another word follows. -/
def readPlain (inBrackets : Bool) (indent : Nat) :
    List Char → Option Gap → Nat → Nat → List Char → Option PlainScalar
  | text, gap, line, column, [] => some (stop text gap ⟨[], line, column⟩)
  | text, gap, line, column, c :: cs =>
    if isBlank c then
      if c == '\t' && column < indent && gap.any (·.isLines) then none
      else readPlain inBrackets indent text (some (.blank c gap)) line (column + 1) cs
    else if isBreak c then
      readPlain inBrackets indent text (some (.lineEnd c gap)) (line + 1) 0 cs
    else if gap.isSome && ((!inBrackets && column < indent) ||
        (column == 0 && startsMarker (c :: cs)) || c == '#') then
      some (stop text gap ⟨c :: cs, line, column⟩)
    else if isBadColon inBrackets (c :: cs) then none
    else if endsPlainWord inBrackets (c :: cs) then some (stop text gap ⟨c :: cs, line, column⟩)
    else readPlain inBrackets indent (c :: (Gap.fold gap ++ text)) none line (column + 1) cs
where
  stop (text : List Char) (gap : Option Gap) (cursor : Cursor) : PlainScalar :=
    { text := String.ofList text.reverse, endsLine := gap.any (·.isLines), cursor }

end WorkBundle.Yaml
