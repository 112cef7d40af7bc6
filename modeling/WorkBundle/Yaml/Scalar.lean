import WorkBundle.Text.Decimal
import WorkBundle.Value
import WorkBundle.Yaml.Node

/-!
# What a scalar means

A plain scalar without a tag is null, a truth value, a number or a text, by its spelling alone. A
tag of the core schema demands one of these; under a tag of the application the spelling decides
as if there was none.
-/

set_option autoImplicit false

namespace WorkBundle.Yaml

def isNull (text : String) : Bool := ["null", "Null", "NULL", "~"].contains text

def flag? (text : String) : Option Bool :=
  if ["true", "True", "TRUE"].contains text then some true
  else if ["false", "False", "FALSE"].contains text then some false
  else none

/-- A row of digits that begins with a zero, such as `007`, is a text and no number. -/
def isZeroLed (cs : List Char) : Bool :=
  match (Text.splitSign cs).2 with
  | '0' :: c :: cs => (c :: cs).all Text.isDigit
  | _ => false

def based? : List Char → Option Nat
  | '0' :: 'x' :: cs => Text.natural? 16 cs
  | '0' :: 'o' :: cs => Text.natural? 8 cs
  | '0' :: 'b' :: cs => Text.natural? 2 cs
  | _ => none

def integer? (text : String) : Option Int :=
  let cs := text.toList
  let (sign, digits) := Text.splitSign cs
  match based? digits, isZeroLed cs with
  | some n, _ => some (if sign == some '-' then -n else n)
  | none, true => none
  | none, false => Text.integer? 10 cs

def double? (text : String) : Option UInt64 :=
  if [".inf", ".Inf", ".INF", "+.inf", "+.Inf", "+.INF"].contains text then some (infiniteDouble false)
  else if ["-.inf", "-.Inf", "-.INF"].contains text then some (infiniteDouble true)
  else if [".nan", ".NaN", ".NAN"].contains text then some undefinedDouble
  else
    match Decimal.ofChars? text.toList with
    | none => none
    | some d =>
      let bits := d.doubleBits
      if bits == infiniteDouble d.negative then none else some bits

def intValue? (i : Int) : Option Value :=
  if -Int.pow 2 63 ≤ i ∧ i < Int.pow 2 64 then some (.int i) else none

def isWide (i : Int) : Bool := -Int.pow 2 127 ≤ i && i < Int.pow 2 128

/-- A plain scalar without a tag: null, a truth value, a number or else a text. An integer that has
more than 64 bits is an error, and only one that has more than 128 (`isWide`) is read as a double.
-/
def plainValue? (text : String) : Option Value :=
  if text.isEmpty || isNull text then some .null
  else
    match flag? text, (integer? text).filter isWide with
    | some b, _ => some (.bool b)
    | none, some i => intValue? i
    | none, none =>
      if isZeroLed text.toList then some (.text text)
      else some (((double? text).map Value.float).getD (.text text))

/-- What a scalar means, with its tag if that has not been dealt with already. -/
def scalarValue? (tag : Option Tag) (style : Style) (text : String) : Option Value :=
  let untagged := if style == .plain then plainValue? text else some (.text text)
  match tag with
  | none | some (.local _) | some .unreadable => untagged
  | some .bool => (flag? text).map .bool
  | some .int => (integer? text).bind intValue?
  | some .float => (double? text).map .float
  | some .null => if isNull text then some .null else none
  | some .other => some (.text text)

end WorkBundle.Yaml
