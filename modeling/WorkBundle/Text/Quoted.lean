import WorkBundle.Text.Printable

/-!
# Quoted text

The quoted form of a text, for diagnostic output: the text between double quotes, with everything a
reader could not see or could misread written as an escape.

A combining mark is escaped as well, since it would otherwise join the quote before it. Apart from
the named escapes, an escape gives the code point in lower-case hexadecimal between braces.
-/

set_option autoImplicit false

namespace WorkBundle.Text

def hexadecimal (n : Nat) : String := String.ofList (Nat.toDigits 16 n)

def codeEscape (c : Char) : String := "\\u\x7b" ++ hexadecimal c.toNat ++ "\x7d"

def quotedChar (c : Char) : String :=
  if c = '\x00' then "\\0"
  else if c = '\t' then "\\t"
  else if c = '\n' then "\\n"
  else if c = '\r' then "\\r"
  else if c = '"' then "\\\""
  else if c = '\\' then "\\\\"
  else if extendsGrapheme c || !isPrintable c then codeEscape c
  else c.toString

/-- The text between double quotes, as errors show it. What does not print, or would attach to the
character before it, is escaped by its code point; a single quote needs no escape here. -/
def quoted (s : String) : String := "\"" ++ String.join (s.toList.map quotedChar) ++ "\""

end WorkBundle.Text
