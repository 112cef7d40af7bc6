import WorkBundle.Machine.Remaining

/-!
# Running a bundle

A producer that runs a whole bundle by itself: it starts the engine, submits the elements one
after the other, and finishes. It stops submitting at the first error but finishes all the same,
so that nothing reaches the sink after the bundle is over; the error of a submission wins over
whatever the finish answers. Only a start that fails ends the bundle at once.

A `Run` is an engine with the plan of its producer. With no plan, the calls come from outside.
-/

set_option autoImplicit false

namespace WorkBundle

variable {α : Type}

/-- What the producer of a bundle does of its own accord when no call is in progress. `opening` has
yet to start the engine, and `opened` has made that call; `feeding` has made a submission, and these
items are left; `closing` has made the finish call, with the error of a submission that failed
before. A bundle whose calls come from outside has the plan `none`. -/
inductive Plan (α : Type) where
  | none
  | opening (items : List (WorkItem α))
  | opened (items : List (WorkItem α))
  | feeding (items : List (WorkItem α))
  | closing (failed : Option ExecutionError)
  | over (reply : Reply)
  deriving Repr

structure Run (α : Type) where
  machine : Machine α
  plan : Plan α := .none

namespace Run

def bundle (machine : Machine α) (items : List (WorkItem α)) : Run α :=
  { machine, plan := .opening items }

def lastReply (r : Run α) : Reply := r.machine.replies.getLast?.getD .panic

def makeCall (r : Run α) (c : Call α) (plan : Plan α) : Run α :=
  { machine := r.machine.beginCall c, plan }

/-- The producer submits the next element, or finishes when there is none. So a list without
elements still starts and finishes the engine. -/
def feed (r : Run α) : List (WorkItem α) → Run α
  | [] => r.makeCall .finish (.closing none)
  | item :: items => r.makeCall (.submit item) (.feeding items)

/-- The producer goes on with its plan, now that no call is in progress. A submission that failed
does not end the bundle at once: the producer calls `finish` first, so that the drain comes before
the answer. -/
def proceed (r : Run α) : Option (Run α) :=
  match r.plan with
  | .none | .over _ => none
  | .opening items => some (r.makeCall .start (.opened items))
  | .opened items =>
    match r.lastReply with
    | .answer (.ok ()) => some (r.feed items)
    | reply => some { r with plan := .over reply }
  | .feeding items =>
    match r.lastReply with
    | .answer (.ok ()) => some (r.feed items)
    | .answer (.error e) => some (r.makeCall .finish (.closing (some e)))
    | .panic => some { r with plan := .over .panic }
  | .closing failed =>
    match r.lastReply, failed with
    | .answer _, some e => some { r with plan := .over (.answer (.error e)) }
    | reply, _ => some { r with plan := .over reply }

/-- What a move does, if it can be made. A `.producer` move goes on with the call in progress
(`Machine.step`), and with the plan only where there is none. -/
def step (r : Run α) (move : Move α) : Option (Run α) :=
  match move, r.machine.isBusy with
  | .producer, false => r.proceed
  | _, _ => (r.machine.step move).map fun machine => { r with machine }

def isBusy (r : Run α) : Bool :=
  r.machine.isBusy ||
    match r.plan with
    | .none | .over _ => false
    | _ => true

def result? (r : Run α) : Option Reply :=
  match r.plan with
  | .over reply => some reply
  | _ => none

/-- Steps that the plan can still take, with those of the calls it will make. `stepsLeft` adds those
of the call in progress and of the workers. -/
def planSteps (r : Run α) : Nat :=
  let feeding (items : List (WorkItem α)) : Nat :=
    items.foldr (fun item steps => r.machine.submitSteps item + 1 + steps)
      (r.machine.finishSteps + 3)
  match r.plan with
  | .none | .over _ => 0
  | .opening items =>
    scriptSteps r.machine.setup.intake r.machine.setup.processor.startHook + 4 + feeding items
  | .opened items | .feeding items => feeding items
  | .closing _ => 1

def stepsLeft (r : Run α) : Nat := r.planSteps + r.machine.stepsLeft

end Run

end WorkBundle
