import WorkBundle.Scope

/-!
# The way of an emission

Between the code of an element and the sink of its bundle there are layers, each with the same calls
as the one below or more of them. The scope of the bundle hands a value to the sink, with the time
that is named (`BundleContext.collecting`). An element fills in its own time where none is named
(`BundleContext.forElement`). And what a worker sees holds the output lock of the bundle for as long
as the call below it takes (`ElementContext.serialized`).

What a call does in the end is a list of steps at the `Outlet`, which is the sink together with the
lock.
-/

set_option autoImplicit false

namespace WorkBundle

variable {α β ν : Type}

/-! ## The outlet -/

/-- The way out of a bundle: what the sink has collected, oldest first, and the output lock. -/
structure Outlet (β : Type) (ν : Type := SideValue) where
  emissions : List (Emission β ν) := []
  locked : Bool := false
  deriving DecidableEq, Repr

inductive OutletStep (β : Type) (ν : Type := SideValue) where
  | lock
  | keep (e : Emission β ν)
  | unlock
  deriving DecidableEq, Repr

namespace Outlet

/-- One step at the outlet. Whoever finds the lock taken cannot go on, so a run in which two calls
overlap is none at all. -/
def step (o : Outlet β ν) : OutletStep β ν → Option (Outlet β ν)
  | .lock => if o.locked then none else some { o with locked := true }
  | .keep e => some { o with emissions := o.emissions ++ [e] }
  | .unlock => some { o with locked := false }

def run (o : Outlet β ν) (steps : List (OutletStep β ν)) : Option (Outlet β ν) :=
  steps.foldlM step o

end Outlet

/-! ## The layers -/

/-- What code can emit without an element: every call names its time. This is the layer that a hook
sees, and it takes no lock; `serialized` puts one around it. -/
structure BundleContext (β : Type) (ν : Type := SideValue) where
  outputAt : β → Timestamp → List (OutletStep β ν)
  sideAt : TaggedValue ν → Timestamp → List (OutletStep β ν)

/-- What the code of an element can emit. To the calls of a `BundleContext` come those that leave
the time to the element. -/
structure ElementContext (β : Type) (ν : Type := SideValue) extends BundleContext β ν where
  output : β → List (OutletStep β ν)
  side : TaggedValue ν → List (OutletStep β ν)

namespace BundleContext

def collecting : BundleContext β ν where
  outputAt v t := [.keep (.main v t)]
  sideAt v t := [.keep (.side v t)]

def forElement (c : BundleContext β ν) (timestamp : Timestamp) : ElementContext β ν where
  outputAt v t := c.outputAt v t
  sideAt v t := c.sideAt v t
  output v := c.outputAt v timestamp
  side v := c.sideAt v timestamp

def steps? (c : BundleContext β ν) : EmitCall β ν → Option (List (OutletStep β ν))
  | .outputAt v t => some (c.outputAt v t)
  | .sideAt v t => some (c.sideAt v t)
  | .output _ | .side _ => none

end BundleContext

namespace ElementContext

/-- The same calls, each under the output lock. The lock is taken and given back within one call, so
a call holds it for no longer than its own emission. -/
def serialized (c : ElementContext β ν) : ElementContext β ν where
  outputAt v t := .lock :: c.outputAt v t ++ [.unlock]
  sideAt v t := .lock :: c.sideAt v t ++ [.unlock]
  output v := .lock :: c.output v ++ [.unlock]
  side v := .lock :: c.side v ++ [.unlock]

def steps (c : ElementContext β ν) : EmitCall β ν → List (OutletStep β ν)
  | .output v => c.output v
  | .outputAt v t => c.outputAt v t
  | .side v => c.side v
  | .sideAt v t => c.sideAt v t

end ElementContext

/-- What a worker that handles the element sees: the calls of the bundle with the time of the
element, `serialized` by the lock. -/
def Element.context (e : Element α) : ElementContext β ν :=
  (BundleContext.collecting.forElement e.timestamp).serialized

end WorkBundle
