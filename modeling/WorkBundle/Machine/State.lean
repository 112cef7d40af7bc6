import WorkBundle.Backend
import WorkBundle.Event
import WorkBundle.Gate
import WorkBundle.Intake

/-!
# The state of an engine

An engine runs one bundle. Its *producer* is whoever makes the calls `start`, `submit` and
`finish`; at most one call is in progress. Its *workers* handle the items that were handed to the
backend, each under the number it got on dispatch. This module holds the state only; what can
happen in it is said in `WorkBundle.Machine.Step`.

The phases are cut where control can pass from one to another: a phase is a place at which
something else may happen before the next step. So there is a phase between reading the failure
cell and handing the item over, one between losing an offer to the cell and being counted, and one
between recording an outcome and giving the ticket back.
-/

set_option autoImplicit false

namespace WorkBundle

variable {α : Type}

/-- What an engine is made of. Nothing of it changes in the life of the engine (`setup_run`). -/
structure Setup (α : Type) where
  processor : Processor α
  parallelism : Parallelism := .standard
  backend : Backend := default
  intake : Intake α := default

/-! ## Code in progress -/

/-- What code in progress waits for: for the clock to reach a time, for a latch, for others to have
had their turn (`turn`), for the output lock, or for a permit of the supply. -/
inductive Wait where
  | nothing
  | clock (time : Nat)
  | latch (name : String)
  | turn
  | lock
  | supply
  deriving DecidableEq, Repr

/-- An emission in progress: it waits for the output lock (`queued`), or the sink is taking it in,
and these steps are left (`writing`). -/
inductive Emitting (α : Type) where
  | queued (e : Emission (Output α))
  | writing (steps : List (Delivery α))
  deriving Repr

/-- Code in progress: the actions left, what it waits for, and the emission it is in the middle of.
There is at most one such emission, so code makes its emissions one after the other by type. The
hooks and workers of this model, and so all results about their emissions, are of that class; code
that joins two emissions, to have both under way at once, is not. -/
structure Activity (α : Type) where
  script : Script α
  wait : Wait := .nothing
  emitting : Option (Emitting α) := none
  deriving Repr

/-- How a worker has ended, as far as its task shows. A worker that panicked or was dropped in the
middle is `lost`; one that was dropped before it had begun is `unstarted`, and leaves no failure
behind. -/
inductive Ending where
  | returned
  | failed (f : Failure)
  | lost
  | unstarted
  deriving DecidableEq, Repr

/-- Where a worker is. It was handed over (`queued`), and handles its element (`working`). A failure
is offered to the cell (`offering`) and, if it came too late, counted in a step of its own
(`counting`). Then the outcome is recorded and the ticket about to go back (`leaving`), and last the
backend sees the end of the task (`closing`, `ended`). -/
inductive WorkerPhase (α : Type) where
  | queued
  | working (a : Activity α)
  | offering (f : Failure) (ending : Ending)
  | counting (f : Failure) (ending : Ending)
  | leaving (ending : Ending)
  | closing (ending : Ending)
  | ended (ending : Ending)
  deriving Repr

/-- A worker: an item that was handed to the backend. Its number is its place in `Machine.workers`.
-/
structure Worker (α : Type) where
  item : WorkItem α
  phase : WorkerPhase α := .queued
  deriving Repr

/-! ## The producer -/

/-- How a call of the producer has ended: with an answer, or in a panic of a hook it ran, which the
caller may catch. -/
inductive Reply where
  | answer (a : Answer)
  | panic
  deriving Repr

inductive Call (α : Type) where
  | start
  | submit (item : WorkItem α)
  | finish
  deriving Repr

/-- Where the call in progress is. A submission waits for its ticket (`admitting`), reads the
failure cell (`checking`) and hands the item over (`handing`); the backend may run or drop the task
within the call (`polling`, `dropping`), and may refuse it, which is offered to the cell and, if it
came too late, counted (`refused`, `outdone`). A finish call waits for every ticket (`draining`),
reads the cell (`drained`) and runs the finish hook (`finishing`). -/
inductive Phase (α : Type) where
  | idle
  | starting (hook : Activity α)
  | admitting (item : WorkItem α)
  | checking (item : WorkItem α)
  | handing (item : WorkItem α)
  | polling (number : Nat)
  | dropping (number : Nat)
  | refused (f : Failure)
  | outdone (f : Failure)
  | draining
  | drained
  | finishing (hook : Activity α)
  deriving Repr

inductive Stage where
  | created
  | started
  | finished
  deriving DecidableEq, Repr

/-! ## The engine -/

inductive Source where
  | start
  | item (label : Nat)
  | finish
  deriving DecidableEq, Repr

structure Arrival (α : Type) where
  time : Nat
  source : Source
  emission : Emission (Output α)
  deriving Repr

/-- How many of something began, ended by themselves and were in progress at once. What is lost
(`lose`) has begun and never ended by itself. -/
structure Activeness where
  started : Nat := 0
  completed : Nat := 0
  active : Nat := 0
  maxActive : Nat := 0
  deriving DecidableEq, Repr

namespace Activeness

def enter (a : Activeness) : Activeness :=
  { a with
    started := a.started + 1
    active := a.active + 1
    maxActive := max a.maxActive (a.active + 1) }

def complete (a : Activeness) : Activeness :=
  { a with completed := a.completed + 1, active := a.active - 1 }

def lose (a : Activeness) : Activeness := { a with active := a.active - 1 }

end Activeness

/-- What an observer counts: the code of elements in progress, the emissions that the sink is taking
in, the probe that code can `enter` and `leave`, and the tasks offered to the backend and run to
their end. No step of the engine depends on it. -/
structure Tally where
  bodies : Activeness := {}
  emissions : Activeness := {}
  probe : Activeness := {}
  submitted : Nat := 0
  tasksOk : Nat := 0
  tasksFailed : Nat := 0
  notes : List String := []
  deriving DecidableEq, Repr

/-- An engine at a moment of its life, with all it shares with its workers. Tickets, the output lock
and the supply are `Permits`, claimed at the gate by the producer and otherwise by workers under
their numbers. `minted` counts the failures made so far and gives the next one its identity;
`dispatched` is the next number of an item. The histories `replies`, `arrivals` and `log` have their
oldest entry first. -/
structure Machine (α : Type) where
  setup : Setup α
  scope : Scope := {}
  now : Nat := 0
  stage : Stage := .created
  startedAt : Nat := 0
  gate : Gate Unit
  cell : FailureCell := {}
  minted : Nat := 0
  lock : Permits Nat := { free := 1 }
  supply : Permits Nat := { free := 0 }
  supplyClosed : Bool := false
  openLatches : List String := []
  dispatched : Nat := 0
  workers : List (Worker α) := []
  producer : Phase α := .idle
  replies : List Reply := []
  arrivals : List (Arrival α) := []
  written : List Char := []
  log : List Record := []
  tally : Tally := {}

namespace Machine

def new (setup : Setup α) (scope : Scope := {}) : Machine α :=
  { setup, scope, gate := .new setup.parallelism }

/-! ## What the engine tells about itself

Only a started bundle has anything to tell; before and after, the counters are zero. -/

/-- Tickets held by items in flight, as the engine answers it. It answers only while the bundle is
`started`, and zero otherwise, whatever the gate says. -/
def outstanding (m : Machine α) : Nat :=
  match m.stage with
  | .started => m.gate.outstanding
  | _ => 0

/-- Items handed to the backend so far. Like `outstanding`, `failure` and `droppedFailures`, this is
zero or nothing unless the bundle is started. -/
def dispatchedCount (m : Machine α) : Nat :=
  match m.stage with
  | .started => m.dispatched
  | _ => 0

def failure (m : Machine α) : Option Failure :=
  match m.stage with
  | .started => m.cell.captured
  | _ => none

def droppedFailures (m : Machine α) : Nat :=
  match m.stage with
  | .started => m.cell.dropped
  | _ => 0

def isBusy (m : Machine α) : Bool :=
  match m.producer with
  | .idle => false
  | _ => true

end Machine

end WorkBundle
