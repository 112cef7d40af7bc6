import WorkBundle.Text.Decimal
import WorkBundle.Yaml.Gap

/-!
# Quoted scalars

A scalar in single quotes, in which a quote is written twice, or in double quotes, in which a
backslash escapes. Both fold their line ends.
-/

set_option autoImplicit false

namespace WorkBundle.Yaml

def escaped? : Char → Option Char
  | '0' => some '\x00'
  | 'a' => some '\x07'
  | 'b' => some '\x08'
  | 't' | '\t' => some '\t'
  | 'n' => some '\n'
  | 'v' => some '\x0b'
  | 'f' => some '\x0c'
  | 'r' => some '\r'
  | 'e' => some '\x1b'
  | ' ' => some ' '
  | '"' => some '"'
  | '/' => some '/'
  | '\\' => some '\\'
  | 'N' => some '\u0085'
  | '_' => some '\u00a0'
  | 'L' => some '\u2028'
  | 'P' => some '\u2029'
  | _ => none

def codeLength? : Char → Option Nat
  | 'x' => some 2
  | 'u' => some 4
  | 'U' => some 8
  | _ => none

def coded? (length : Nat) (cs : List Char) : Option Char :=
  let digits := cs.take length
  if digits.length < length then none
  else (Text.natural? 16 digits).bind fun n => if n.isValidChar then some (.ofNat n) else none

/-- Reads the rest of a quoted scalar after its opening quote. `text` is what has been read, last
character first, and `gap` the blanks behind it. -/
def readQuoted (double : Bool) (text : List Char) (gap : Option Gap) (line column : Nat) :
    List Char → Option (String × Cursor)
  | [] => none
  | c :: cs =>
    let folded := Gap.fold gap ++ text
    if isBlank c then readQuoted double text (some (.blank c gap)) line (column + 1) cs
    else if isBreak c then readQuoted double text (some (.lineEnd c gap)) (line + 1) 0 cs
    else if column == 0 && startsMarker (c :: cs) then none
    else if c == '\'' && !double then
      match cs with
      | '\'' :: cs => readQuoted double ('\'' :: folded) none line (column + 2) cs
      | cs => some (String.ofList folded.reverse, ⟨cs, line, column + 1⟩)
    else if c == '"' && double then some (String.ofList folded.reverse, ⟨cs, line, column + 1⟩)
    else if c == '\\' && double then
      match cs with
      | [] => none
      | e :: cs =>
        if isBreak e then readQuoted double folded (some (.lines none [])) (line + 1) 0 cs
        else
          match escaped? e, codeLength? e with
          | some d, _ => readQuoted double (d :: folded) none line (column + 2) cs
          | none, some n =>
            match coded? n cs with
            | some d => readQuoted double (d :: folded) none line (column + 2 + n) (cs.drop n)
            | none => none
          | none, none => none
    else readQuoted double (c :: folded) none line (column + 1) cs
  termination_by cs => cs.length

end WorkBundle.Yaml
