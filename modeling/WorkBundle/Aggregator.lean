/-!
# Aggregators

A running total that every element of a bundle may add to: a sum, a minimum or a maximum of 64-bit
integers. Aggregators are shared by name. Who asks for a name first decides how its values are
combined; everyone who asks later gets the same aggregator, whatever combiner they name.

`Aggregators` keeps every aggregator in a cell, and a `Handle` is the number of a cell, so two
handles are the same aggregator exactly if they are equal.
-/

set_option autoImplicit false

namespace WorkBundle

/-- How an `Aggregator` takes in a value. The combiner is fixed when the name is first asked for; a
later request with another one is answered with the first (`Aggregators.getOrCreate`). -/
inductive Combiner where
  | sum
  | min
  | max
  deriving DecidableEq, Repr

namespace Combiner

def unit : Combiner → Int64
  | .sum => 0
  | .min => .maxValue
  | .max => .minValue

/-- The running value after one more addition. `sum` is the addition of `Int64`, so it wraps around
rather than fails; `min` and `max` keep the old value on a tie. -/
def combine : Combiner → Int64 → Int64 → Int64
  | .sum, a, b => a + b
  | .min, a, b => if b < a then b else a
  | .max, a, b => if a < b then b else a

end Combiner

structure Aggregator where
  name : String
  combiner : Combiner
  value : Int64
  deriving DecidableEq, Repr

namespace Aggregator

def fresh (name : String) (combiner : Combiner) : Aggregator := ⟨name, combiner, combiner.unit⟩

def add (a : Aggregator) (v : Int64) : Aggregator := { a with value := a.combiner.combine a.value v }

end Aggregator

abbrev Handle := Nat

/-- All aggregators of a bundle. `cells` holds every one that was made, oldest first, so a `Handle`
stays good however many follow; `index` leads from a registered name to its handle. -/
structure Aggregators where
  cells : List Aggregator := []
  index : List (String × Handle) := []
  deriving DecidableEq, Repr

namespace Aggregators

instance : Inhabited Aggregators := ⟨{}⟩

/-- Makes an aggregator that no name leads to. Only `getOrCreate` registers, which is why two
aggregators made in this way may share a name. -/
def create (r : Aggregators) (name : String) (combiner : Combiner) : Handle × Aggregators :=
  (r.cells.length, { r with cells := r.cells ++ [.fresh name combiner] })

def find? (r : Aggregators) (name : String) : Option Handle := r.index.lookup name

/-- The handle registered under `name`. Only the first request for a name makes an aggregator, and
the `combiner` of every later one is ignored. -/
def getOrCreate (r : Aggregators) (name : String) (combiner : Combiner) : Handle × Aggregators :=
  match r.find? name with
  | some h => (h, r)
  | none =>
    let (h, r) := r.create name combiner
    (h, { r with index := r.index ++ [(name, h)] })

def read? (r : Aggregators) (h : Handle) : Option Aggregator := r.cells[h]?

def add (r : Aggregators) (h : Handle) (v : Int64) : Aggregators :=
  { r with cells := r.cells.modify h (·.add v) }

def get? (r : Aggregators) (name : String) : Option Aggregator := (r.find? name).bind r.read?

end Aggregators

end WorkBundle
