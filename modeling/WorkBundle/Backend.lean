/-!
# Backends

A backend runs the tasks that an engine hands to it. It may accept a task and run it to its end,
accept it and drop it, or refuse it; and it may run a task up to its first wait before it decides.
-/

set_option autoImplicit false

namespace WorkBundle

/-- What becomes of a task in the end: `run` brings it to its end, `discard` accepts and then drops
it, `refuse` drops it and says so to the caller. -/
inductive Verdict where
  | run
  | discard
  | refuse
  deriving DecidableEq, Repr

/-- How a backend takes a task. If `polled`, the task first runs on the caller's thread up to its
first wait, and only then does the `verdict` apply; otherwise the verdict is all. -/
structure Reception where
  polled : Bool := false
  verdict : Verdict := .run
  deriving DecidableEq, Repr

/-- What runs the tasks: `receive` says how the task of each item is taken, `reason` what a refusal
says, and `reportsAs` under which name tasks that end in a failure are reported to the log, if they
are. -/
structure Backend where
  name : String
  receive : Nat → Reception := fun _ => {}
  reason : String := "worker pool is shut down"
  reportsAs : Option String := none

namespace Backend

def async : Backend := { name := "tokio", reportsAs := some "tokio" }

def threads : Backend := { name := "tokio_blocking", reportsAs := some "tokio_blocking" }

/-- Runs every task like `async`. It differs from that in what its user can count, its tasks and
those that end in a failure, and in no step of the engine. -/
def instrumented : Backend := { name := "instrumented", reportsAs := some "tokio" }

def rejecting : Backend := { name := "rejecting", receive := fun _ => { verdict := .refuse } }

instance : Inhabited Backend := ⟨async⟩

/-- The backend of the runtime around the caller. Outside of a runtime there is none, and the answer
is the error text of the runtime itself. -/
def current (insideRuntime : Bool) : Except String Backend :=
  if insideRuntime then .ok async
  else
    .error <| "No tokio runtime available: there is no reactor running, " ++
      "must be called from the context of a Tokio 1.x runtime"

end Backend

end WorkBundle
