import WorkBundle.Text.Decimal
import WorkBundle.Yaml.Token
import WorkBundle.Yaml.Cursor

/-!
# Tags and directives as text

How tags are written: whole, or as a short form with a handle that a directive may explain. What a
tag is made of are octets, which an escape gives by two hexadecimal digits. Several escaped octets
for one character must follow each other.
-/

set_option autoImplicit false

namespace WorkBundle.Yaml

def isTagMark (c : Char) : Bool := ";/?:@&=+$.!~*'()".toList.contains c

def following? (octet : Nat) : Option Nat :=
  if octet < 0x80 then some 0
  else if octet / 0x20 == 0x06 then some 1
  else if octet / 0x10 == 0x0e then some 2
  else if octet / 0x08 == 0x1e then some 3
  else none

/-- Reads the octets at the start of a text for as long as they may belong to a tag. `whole` says
that the tag stands between angle brackets, where commas and square brackets belong to it. `pending`
octets must still follow as escapes. -/
def readOctets (whole : Bool) : Nat → List Char → Option (List UInt8 × List Char)
  | pending, '%' :: a :: b :: cs =>
    match Text.natural? 16 [a, b] with
    | none => none
    | some octet =>
      let next? :=
        match pending with
        | 0 => following? octet
        | n + 1 => if octet / 0x40 == 0x02 then some n else none
      match next? with
      | none => none
      | some next => (readOctets whole next cs).map fun (os, cs) => (UInt8.ofNat octet :: os, cs)
  | pending, c :: cs =>
    if c == '%' then none
    else if isNameChar c || isTagMark c || (whole && (c == ',' || c == '[' || c == ']')) then
      if pending == 0 then
        (readOctets whole 0 cs).map fun (os, cs) => (UInt8.ofNat c.toNat :: os, cs)
      else none
    else if pending == 0 then some ([], c :: cs)
    else none
  | 0, [] => some ([], [])
  | _ + 1, [] => none

def octetsOf (cs : List Char) : List UInt8 := (String.ofList cs).toUTF8.toList

def readHandle : List Char → Option (List Char × List Char)
  | '!' :: cs =>
    let name := cs.takeWhile isNameChar
    match cs.dropWhile isNameChar with
    | '!' :: rest => some ('!' :: (name ++ ['!']), rest)
    | rest => some ('!' :: name, rest)
  | _ => none

/-- Reads a tag, which begins with an exclamation mark. A mark alone is the tag of that name; a name
with one mark in front belongs to the handle of a single mark. -/
def readTag (cs : List Char) : Option (Token × List Char) :=
  match cs with
  | '!' :: '<' :: cs =>
    match readOctets true 0 cs with
    | some (o :: os, '>' :: cs) => some (.tag "" (o :: os), cs)
    | _ => none
  | cs =>
    match readHandle cs with
    | none => none
    | some (name, rest) =>
      match readOctets false 0 rest with
      | none => none
      | some (os, rest) =>
        if 1 < name.length && name.getLast? == some '!' then
          if os.isEmpty then none else some (.tag (String.ofList name) os, rest)
        else
          match octetsOf (name.drop 1) ++ os with
          | [] => some (.tag "" (octetsOf ['!']), rest)
          | suffix => some (.tag "!" suffix, rest)

def readVersionNumber (cs : List Char) : Option (Nat × List Char) :=
  let digits := cs.takeWhile Text.isDigit
  if 9 < digits.length then none
  else (Text.natural? 10 digits).map fun n => (n, cs.dropWhile Text.isDigit)

/-- Reads a directive after its percent sign: the version of YAML, or what a tag handle stands for.
There are no others. -/
def readDirective (cs : List Char) : Option (Token × List Char) :=
  let name := cs.takeWhile isNameChar
  let rest := cs.dropWhile isNameChar
  let value := rest.dropWhile isBlank
  if !endsWord rest then none
  else if name == "YAML".toList then
    match readVersionNumber value with
    | some (major, '.' :: rest) =>
      (readVersionNumber rest).map fun (minor, rest) => (.version major minor, rest)
    | _ => none
  else if name == "TAG".toList then
    match readHandle value with
    | none => none
    | some (handle, rest) =>
      if handle.getLast? != some '!' || !rest.head?.any isBlank then none
      else
        match readOctets true 0 (rest.dropWhile isBlank) with
        | some (o :: os, rest) =>
          if endsWord rest then some (.handle (String.ofList handle) (o :: os), rest) else none
        | _ => none
  else none

end WorkBundle.Yaml
