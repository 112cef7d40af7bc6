import WorkBundle.Aggregator
import WorkBundle.Emission
import WorkBundle.Options

/-!
# What processing code can see

The scope of a bundle is shared by its elements and by both hooks: the options and the side
inputs, which nobody changes, and the aggregators, which everybody may. An element adds what is
its own: its value, its timestamp and its window.

`Read` is a question about these, `Reading` an answer. `Scope.read` answers; asking for an
aggregator registers it, so answering may change the scope. Questions about the element have no
answer in a hook.
-/

set_option autoImplicit false

namespace WorkBundle

variable {α : Type}

structure Element (α : Type) where
  value : α
  timestamp : Timestamp := .least
  window : Window := .whole
  deriving Repr

/-- The time of an emission: the one that is named, or else that of the element. A hook has no
element, so it has to name one. -/
def emissionTime? (element : Option (Element α)) (named : Option Timestamp) : Option Timestamp :=
  named.or (element.map (·.timestamp))

/-- What the elements and the hooks of a bundle share. Nobody changes the options and the side
inputs, which is why `SameFacts` speaks of these two; the aggregators change with every `addTo` and
every question for one. -/
structure Scope where
  options : Options := {}
  sideInputs : SideInputs := {}
  aggregators : Aggregators := {}
  deriving Repr, Inhabited

/-- A question that processing code can ask. Those on options and aggregators have an answer in a
hook as well; the others are about an element and what belongs to it. -/
inductive Read where
  | jobName
  | option (key : String)
  | optionText (key : String)
  | optionCount (key : String)
  | optionFlag (key : String)
  | aggregator (name : String) (combiner : Combiner)
  | element
  | timestamp
  | window
  | sideInput (id : String) (type : SideType)
  | sideInputCount
  deriving DecidableEq, Repr

inductive Reading (α : Type) where
  | text (s : Option String)
  | option (v : Option Value)
  | count (n : Option Nat)
  | flag (b : Option Bool)
  | aggregator (a : Aggregator)
  | element (v : α)
  | timestamp (t : Timestamp)
  | window (w : Window)
  | side (v : Option SideValue)
  | size (n : Nat)
  deriving Repr

namespace Scope

/-- Adds a value to the aggregator of a name, registering it if need be. If the name is registered
already, `combiner` plays no part (`Aggregators.getOrCreate`). -/
def addTo (s : Scope) (name : String) (combiner : Combiner) (v : Int64) : Scope :=
  let (h, aggregators) := s.aggregators.getOrCreate name combiner
  { s with aggregators := aggregators.add h v }

def aggregatorOf (s : Scope) (name : String) (combiner : Combiner) : Aggregator × Scope :=
  let (h, aggregators) := s.aggregators.getOrCreate name combiner
  ((aggregators.read? h).getD (.fresh name combiner), { s with aggregators })

/-- Answers a question, asked for an element or, without one, in a hook. It returns the scope as
well, since asking for an aggregator may register it. -/
def read (s : Scope) (element : Option (Element α)) : Read → Option (Reading α) × Scope
  | .jobName => (some (.text s.options.jobName), s)
  | .option key => (some (.option (s.options.get? key)), s)
  | .optionText key => (some (.text (s.options.text? key)), s)
  | .optionCount key => (some (.count (s.options.count? key)), s)
  | .optionFlag key => (some (.flag (s.options.flag? key)), s)
  | .aggregator name combiner =>
    let (a, s) := s.aggregatorOf name combiner
    (some (.aggregator a), s)
  | .element => (element.map fun e => .element e.value, s)
  | .timestamp => (element.map fun e => .timestamp e.timestamp, s)
  | .window => (element.map fun e => .window e.window, s)
  | .sideInput id type => (element.map fun _ => .side (s.sideInputs.get? id type), s)
  | .sideInputCount => (element.map fun _ => .size s.sideInputs.size, s)

end Scope

end WorkBundle
