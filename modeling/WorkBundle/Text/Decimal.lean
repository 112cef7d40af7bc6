/-!
# Decimal numerals and doubles

A numeral such as `-12.5e3` stands for a whole number of powers of ten (`Decimal`). The nearest
IEEE 754 double is found by exact arithmetic on natural numbers: `nearestBits` cuts the quotient
to the 53 bits that a double keeps and rounds half to even.
-/

set_option autoImplicit false

namespace WorkBundle

/-- The number `digits * 10 ^ exponent`, with its sign. Zero has a sign, too, since a double tells
`-0` from `0`. -/
structure Decimal where
  negative : Bool
  digits : Nat
  exponent : Int
  deriving DecidableEq, Repr

namespace Text

def digit? (base : Nat) (c : Char) : Option Nat :=
  let value :=
    if '0' ≤ c && c ≤ '9' then c.toNat - '0'.toNat
    else if 'a' ≤ c && c ≤ 'f' then c.toNat - 'a'.toNat + 10
    else if 'A' ≤ c && c ≤ 'F' then c.toNat - 'A'.toNat + 10
    else base
  if value < base then some value else none

def isDigit (c : Char) : Bool := (digit? 10 c).isSome

/-- The number that a row of digits stands for. There must be at least one, and nothing else. -/
def natural? (base : Nat) : List Char → Option Nat
  | [] => none
  | cs => cs.foldlM (fun n c => (digit? base c).map (n * base + ·)) 0

def splitSign : List Char → Option Char × List Char
  | '+' :: cs => (some '+', cs)
  | '-' :: cs => (some '-', cs)
  | cs => (none, cs)

def integer? (base : Nat) (cs : List Char) : Option Int :=
  match splitSign cs with
  | (some '-', ds) => (natural? base ds).map fun n => -(n : Int)
  | (_, ds) => (natural? base ds).map fun n => (n : Int)

end Text

namespace Decimal

/-- Reads a numeral: a sign, digits with at most one point among or around them, and an exponent.
Sign, point and exponent may be missing, but one digit there must be. -/
def ofChars? (cs : List Char) : Option Decimal :=
  let (sign, cs) := Text.splitSign cs
  let mantissa := cs.takeWhile fun c => c != 'e' && c != 'E'
  let whole := mantissa.takeWhile (· != '.')
  let fraction := (mantissa.dropWhile (· != '.')).drop 1
  let exponent? :=
    match cs.dropWhile fun c => c != 'e' && c != 'E' with
    | [] => some 0
    | _ :: ds => Text.integer? 10 ds
  match exponent?, Text.natural? 10 (whole ++ fraction) with
  | some exponent, some digits =>
    some { negative := sign == some '-', digits, exponent := exponent - fraction.length }
  | _, _ => none

def infinityBits : Nat := 0x7ff0000000000000

/-- The bits of the double nearest to a positive quotient, of two equally near ones the even one.
The unit in the last place is the power of two that leaves 53 bits of the quotient, but none below
the least double. Counted in that unit, doubles and their bits run in step, so a quotient that
rounds up to the next power of two needs no special care. -/
def nearestBits (num den : Nat) : Nat :=
  let guess : Int := (num.log2 : Int) - den.log2
  let top := if num <<< (-guess).toNat < den <<< guess.toNat then guess - 1 else guess
  let unit := max (top - 52) (-1074)
  let num := num <<< (-unit).toNat
  let den := den <<< unit.toNat
  let down := num / den
  let rest := num % den
  let units := if 2 * rest > den || (2 * rest == den && down % 2 == 1) then down + 1 else down
  min infinityBits ((unit + 1074).toNat <<< 52 + units)

/-- The bits of the nearest double (`nearestBits`). A number too big for every double goes to
infinity, and one far too small to zero, without computing its power of ten. -/
def doubleBits (d : Decimal) : UInt64 :=
  let magnitude :=
    if d.digits = 0 || d.exponent + d.digits.log2 < -400 then 0
    else if d.exponent > 400 then infinityBits
    else nearestBits (d.digits * Nat.pow 10 d.exponent.toNat) (Nat.pow 10 (-d.exponent).toNat)
  UInt64.ofNat (magnitude + if d.negative then Nat.pow 2 63 else 0)

end Decimal

def infiniteDouble (negative : Bool) : UInt64 :=
  if negative then 0xfff0000000000000 else 0x7ff0000000000000

def undefinedDouble : UInt64 := 0x7ff8000000000000

end WorkBundle
