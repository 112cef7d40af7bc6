import WorkBundle.FailureCell
import WorkBundle.Scope

/-!
# Scripts

The code that handles an element, or a hook, as a list of actions carried out in order. An action
may wait (for time to pass, for a latch to open, for a permit), may emit, may touch the shared
scope, and may end the code at once with an error or a panic; a script that runs out of actions
has succeeded.

A hook has no element, so it can neither ask about one nor leave the time of an emission open
(`emissionTime?`); it can ask for the options and the aggregators, as an element can. An action that
its place does not offer ends the code with the error `Cause.noSuchCall`.
-/

set_option autoImplicit false

namespace WorkBundle

inductive Output (α : Type) where
  | given (value : α)
  | reading (r : Reading α)
  deriving Repr

/-- A step of processing code. `latch` waits until someone opens the latch of this name; `emit` and
`report` make an emission, of a value or of the answer to a question, and `report` may name its
time; `permit` takes a permit of the common supply, for good; `enter` and `leave` are counted by the
probe, and `note` writes down a word; `fail` ends the code with an error, and `panic` ends it
abruptly. -/
inductive Action (α : Type) where
  | sleep (ms : Nat)
  | latch (name : String)
  | yield
  | emit (call : EmitCall (Output α))
  | report (question : Read) (named : Option Timestamp := none)
  | add (name : String) (combiner : Combiner) (value : Int64)
  | permit
  | enter
  | leave
  | note (word : String)
  | fail (cause : Cause)
  | panic
  deriving Repr

abbrev Script (α : Type) := List (Action α)

/-- The error of an action that its place does not offer, such as a hook's emission without a time
or its request for a permit. -/
def Cause.noSuchCall : Cause := .user "no such call" []

/-- An element with the code that handles it. The `label` is the name by which its submitter knows
it, and need not be the number that the engine gives it. -/
structure WorkItem (α : Type) extends Element α where
  label : Nat := 0
  script : Script α := []
  deriving Repr

/-- What a bundle is processed with: a name, and the code that frames the elements. The code of an
element comes with the element (`WorkItem.script`). -/
structure Processor (α : Type) where
  name : String
  startHook : Script α := []
  finishHook : Script α := []
  deriving Repr

/-- How handling an element, or a hook, has ended. A panic is kept apart from an error, since it
brings no `Cause` of its own. -/
inductive Outcome where
  | returned
  | failed (cause : Cause)
  | panicked
  deriving DecidableEq, Repr

end WorkBundle
