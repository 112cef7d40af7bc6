/-!
# Elapsed time as text

A span of time in the largest unit of which it has at least one (seconds, milliseconds,
microseconds, nanoseconds), with as many decimals as are needed to be exact and no trailing zeros.
-/

set_option autoImplicit false

namespace WorkBundle

structure Elapsed where
  nanoseconds : Nat
  deriving DecidableEq, Repr

namespace Elapsed

def ofParts (seconds nanoseconds : Nat) : Elapsed := ⟨seconds * 1000000000 + nanoseconds⟩

def ofMilliseconds (ms : Nat) : Elapsed := ⟨ms * 1000000⟩

/-- Whole milliseconds, as a count of 64 bits that wraps around where a span is too long for it. -/
def milliseconds (e : Elapsed) : Nat := e.nanoseconds / 1000000 % UInt64.size

def decimals (part places : Nat) : String :=
  let digits := (Nat.toDigits 10 (Nat.pow 10 places + part)).drop 1
  String.ofList (digits.reverse.dropWhile (· == '0')).reverse

def inUnit (n places : Nat) (unit : String) : String :=
  let size := Nat.pow 10 places
  let fraction := decimals (n % size) places
  s!"{n / size}" ++ (if fraction.isEmpty then "" else "." ++ fraction) ++ unit

/-- The span in the largest unit of which it has at least one, with the digits after the point that
are needed and no more (`decimals`). -/
def text (e : Elapsed) : String :=
  let n := e.nanoseconds
  if 1000000000 ≤ n then inUnit n 9 "s"
  else if 1000000 ≤ n then inUnit n 6 "ms"
  else if 1000 ≤ n then inUnit n 3 "µs"
  else inUnit n 0 "ns"

end Elapsed

end WorkBundle
