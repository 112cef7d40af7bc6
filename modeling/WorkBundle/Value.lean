/-!
# Option values

A value in a configuration document: a scalar, a sequence, a mapping or a tagged value. Integers are
those that fit 64 bits, signed or unsigned; a floating-point number is kept as the bits of its IEEE
754 double.
-/

set_option autoImplicit false

namespace WorkBundle

/-- A configuration value. A floating-point number is kept by its bits, since nothing here computes
with it; `sameFloat` says when two are equal. -/
inductive Value where
  | null
  | bool (b : Bool)
  | int (i : Int)
  | float (bits : UInt64)
  | text (s : String)
  | seq (items : List Value)
  | map (entries : List (Value × Value))
  | tagged (tag : String) (value : Value)
  deriving Repr, Inhabited

namespace Value

def isNaNBits (bits : UInt64) : Bool := bits &&& 0x7fffffffffffffff > 0x7ff0000000000000

/-- Equality of doubles as numbers, with all that are not a number counted as one. Zero and its
negative are equal. -/
def sameFloat (a b : UInt64) : Bool :=
  (isNaNBits a && isNaNBits b) || (!isNaNBits a && !isNaNBits b &&
    (a == b || (a ||| b) == 0x8000000000000000))

mutual

/-- Equality of values as keys and as option values. The order of the entries of a mapping does not
matter to it; that of a sequence does. -/
def same : Value → Value → Bool
  | .null, .null => true
  | .bool a, .bool b => a == b
  | .int a, .int b => a == b
  | .float a, .float b => sameFloat a b
  | .text a, .text b => a == b
  | .seq a, .seq b => sameItems a b
  | .map a, .map b => a.length == b.length && sameEntries a b
  | .tagged t a, .tagged u b => t == u && same a b
  | _, _ => false

def sameItems : List Value → List Value → Bool
  | [], [] => true
  | a :: as, b :: bs => same a b && sameItems as bs
  | _, _ => false

def sameEntries : List (Value × Value) → List (Value × Value) → Bool
  | [], _ => true
  | (k, v) :: es, fs => hasEntry k v fs && sameEntries es fs

def hasEntry : Value → Value → List (Value × Value) → Bool
  | _, _, [] => false
  | k, v, (l, w) :: fs => (same k l && same v w) || hasEntry k v fs

end

/-- The value without the tags around it. The readings `text?`, `count?` and `flag?` all look
through tags. -/
def untagged : Value → Value
  | .tagged _ v => v.untagged
  | v => v

def text? (v : Value) : Option String :=
  match v.untagged with
  | .text s => some s
  | _ => none

def count? (v : Value) : Option Nat :=
  match v.untagged with
  | .int i => if 0 ≤ i then some i.toNat else none
  | _ => none

def flag? (v : Value) : Option Bool :=
  match v.untagged with
  | .bool b => some b
  | _ => none

end Value

end WorkBundle
