/-!
# Event time

When an element happened, in milliseconds since the epoch, and the window it was assigned to. A
timestamp has 64 bits; its two ends, `least` and `greatest`, serve as "before everything" and "after
everything".
-/

set_option autoImplicit false

namespace WorkBundle

/-- An instant of event time, in milliseconds. It says when something is said to have happened, and
has nothing to do with the clock of the engine. -/
structure Timestamp where
  millis : Int64
  deriving DecidableEq, Repr

namespace Timestamp

def least : Timestamp := ⟨Int64.minValue⟩

def greatest : Timestamp := ⟨Int64.maxValue⟩

instance : Inhabited Timestamp := ⟨least⟩

instance : LE Timestamp := ⟨fun a b => a.millis ≤ b.millis⟩

instance (a b : Timestamp) : Decidable (a ≤ b) :=
  inferInstanceAs (Decidable (a.millis ≤ b.millis))

def text (t : Timestamp) : String := s!"{t.millis.toInt}ms"

def sort (ts : List Timestamp) : List Timestamp := ts.mergeSort fun a b => decide (a ≤ b)

end Timestamp

inductive Window where
  | whole
  | interval (start stop : Timestamp)
  deriving DecidableEq, Repr

/-- The last timestamp that falls inside the window. An interval excludes its `stop`, so there is
none if that is `Timestamp.least`, the millisecond before which cannot be written. -/
def Window.last? : Window → Option Timestamp
  | .whole => some .greatest
  | .interval _ stop => if stop = .least then none else some ⟨stop.millis - 1⟩

end WorkBundle
