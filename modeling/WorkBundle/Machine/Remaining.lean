import WorkBundle.Machine.Step

/-!
# How much is left to do

An upper bound on the number of steps that an engine can take before somebody makes another call
or time passes. Scripts are finite and nothing in them repeats, so the bound is the length of what
is left, counted with a fixed price for every action.
-/

set_option autoImplicit false

namespace WorkBundle

variable {α : Type}

/-- Steps that an action can take, with those of the emission it may make. A wait counts only for
the step that ends it, since no step passes the time. -/
def Action.steps (intake : Intake α) : Action α → Nat
  | .emit (.output v) => (intake.deliver (.main v .least)).length + 4
  | .emit (.outputAt v t) => (intake.deliver (.main v t)).length + 4
  | .emit (.side v) => (intake.deliver (.side v .least)).length + 4
  | .emit (.sideAt v t) => (intake.deliver (.side v t)).length + 4
  | .report .. => intake.readingSteps + 4
  | _ => 2

def scriptSteps (intake : Intake α) (script : Script α) : Nat :=
  script.foldr (fun action steps => action.steps intake + steps) 1

def Activity.steps (intake : Intake α) (a : Activity α) : Nat :=
  scriptSteps intake a.script + 1 +
    match a.emitting with
    | some (.queued e) => (intake.deliver e).length + 2
    | some (.writing steps) => steps.length + 1
    | none => 0

def Worker.steps (intake : Intake α) (w : Worker α) : Nat :=
  match w.phase with
  | .queued => scriptSteps intake w.item.script + 6
  | .working a => a.steps intake + 4
  | .offering .. => 4
  | .counting .. => 3
  | .leaving _ => 2
  | .closing _ => 1
  | .ended _ => 0

namespace Machine

/-- Steps that a submission can take, with those of the worker it starts, so a submission passes its
bound on to that worker. -/
def submitSteps (m : Machine α) (item : WorkItem α) : Nat :=
  scriptSteps m.setup.intake item.script + 16

def finishSteps (m : Machine α) : Nat := scriptSteps m.setup.intake m.setup.processor.finishHook + 6

def callSteps (m : Machine α) : Nat :=
  match m.producer with
  | .idle => 0
  | .starting hook => hook.steps m.setup.intake + 1
  | .admitting item => m.submitSteps item
  | .checking item => m.submitSteps item - 2
  | .handing item => m.submitSteps item - 3
  | .polling _ => 5
  | .dropping _ => 4
  | .refused _ => 2
  | .outdone _ => 1
  | .draining => m.finishSteps
  | .drained => m.finishSteps - 2
  | .finishing hook => hook.steps m.setup.intake + 1

/-- An upper bound on the steps that the call in progress and the workers can still take before time
passes or another call is made. The scheduler uses it as its fuel (`Schedule.turn`). -/
def stepsLeft (m : Machine α) : Nat :=
  m.workers.foldr (fun w steps => w.steps m.setup.intake + steps) m.callSteps

end Machine

end WorkBundle
