import WorkBundle.Yaml.Cursor

/-!
# Blanks between the words of a scalar

Blanks and line ends between two words of a plain or quoted scalar. Within a line they are kept.
Over several lines they fold: the blanks go, a single line end becomes a space, and of several the
first one goes.
-/

set_option autoImplicit false

namespace WorkBundle.Yaml

/-- What stands between two words of a scalar, last character first: blanks of one line, or line
ends, of which the first one may have been escaped. -/
inductive Gap where
  | blanks (cs : List Char)
  | lines (first : Option Char) (later : List Char)
  deriving Repr

namespace Gap

def isLines : Gap → Bool
  | blanks _ => false
  | lines .. => true

def blank (c : Char) : Option Gap → Gap
  | none => blanks [c]
  | some (blanks cs) => blanks (c :: cs)
  | some g => g

def lineEnd (c : Char) : Option Gap → Gap
  | some (lines first later) => lines first (c :: later)
  | _ => lines (some c) []

/-- What becomes of the gap. One line end between words is a blank, and of several all but the first
one stay. -/
def fold : Option Gap → List Char
  | none => []
  | some (blanks cs) => cs
  | some (lines (some '\n') []) => [' ']
  | some (lines (some '\n') later) => later
  | some (lines first later) => later ++ first.toList

end Gap

end WorkBundle.Yaml
