import WorkBundle.Machine.Act

/-!
# What can happen in an engine

A `Move` is something that can happen next; `Machine.step` says what it does, and answers nothing
when it cannot happen. Every interleaving of the producer with the workers is a list of moves, and
the schedule of a single thread under a virtual clock (`WorkBundle.Schedule`) is one of them.
-/

set_option autoImplicit false

namespace WorkBundle

variable {α : Type}

/-- Something that can happen. A run is a list of moves, so it holds every decision that is not the
engine's own. By `producer` and `worker` the code of the engine goes on; by `call` and `abandon` the
caller acts, by `drop` the backend, and the rest is the world around. -/
inductive Move (α : Type) where
  | call (c : Call α)
  | abandon
  | producer
  | worker (number : Nat)
  | drop (number : Nat)
  | cancel
  | unlatch (name : String)
  /-- Permits are added to the supply. -/
  | supply (n : Nat)
  | closeSupply
  /-- The clock is set forward. -/
  | clock (time : Nat)

namespace Machine

def bundleSpans : List String := ["bundle"]

def workerSpans : List String := ["bundle", "work_item"]

def report (m : Machine α) (event : Event) (spans : List String) : Machine α :=
  { m with log := m.log ++ [⟨event, spans⟩] }

/-- Makes a failure, told from all others by a number of its own. `minted` stands for the fresh
allocation of a shared failure, by which `Failure.same` compares. -/
def mint (m : Machine α) (item : Nat) (cause : Cause) : Failure × Machine α :=
  (⟨item, m.minted, cause⟩, { m with minted := m.minted + 1 })

def setPhase (m : Machine α) (number : Nat) (phase : WorkerPhase α) : Machine α :=
  { m with workers := m.workers.modify number fun w => { w with phase } }

/-! ## The producer -/

/-- The call in progress ends with this reply; `reply` and `outOfOrder` are the two usual ways. -/
def endCall (m : Machine α) (reply : Reply) : Machine α :=
  { m with producer := .idle, replies := m.replies ++ [reply] }

def reply (m : Machine α) (answer : Answer) : Machine α := m.endCall (.answer answer)

def outOfOrder (m : Machine α) (violation : LifecycleViolation) : Machine α :=
  m.reply (.error (.lifecycle violation))

/-- The producer makes a call. The stage is looked at here and nowhere later, and a finish of a
started bundle makes it `finished` before the drain has begun. -/
def beginCall (m : Machine α) : Call α → Machine α
  | .start =>
    match m.stage with
    | .created => { m with producer := .starting { script := m.setup.processor.startHook } }
    | .started => m.outOfOrder .startWhileRunning
    | .finished => m.outOfOrder .startAfterFinish
  | .submit item =>
    match m.stage with
    | .created => m.outOfOrder .submitBeforeStart
    | .started => { m with producer := .admitting item }
    | .finished => m.outOfOrder .submitAfterFinish
  | .finish =>
    match m.stage with
    | .created => m.outOfOrder .finishBeforeStart
    | .started => { m with stage := .finished, producer := .draining }
    | .finished => m.outOfOrder .finishAfterFinish

def hookError (m : Machine α) (hook : Hook) (cause : Cause) : ExecutionError :=
  .hook m.setup.processor.name hook.name cause

/-- A hook is gone in the middle, by its panic or with its call. An emission that the sink had begun
is not in progress any more, and `Activeness.lose` counts it out. -/
def forsakeHook (m : Machine α) (hook : Activity α) : Machine α :=
  match hook.emitting with
  | some (.writing _) =>
    { m with tally := { m.tally with emissions := m.tally.emissions.lose } }
  | _ => m

def reopen (m : Machine α) : Machine α :=
  { m with gate := m.gate.release m.gate.capacity.count }

/-- The start hook has ended. Only if it has returned is the bundle `started`; an error makes it
`finished`, and a panic passes through without setting the stage. -/
def startEnded (m : Machine α) : Outcome → Machine α
  | .returned =>
    ({ m with stage := .started, startedAt := m.now }.report
      (.bundleStarted m.setup.processor.name m.setup.parallelism.count) bundleSpans).reply (.ok ())
  | .failed cause =>
    let e := m.hookError .start cause
    { m with stage := .finished }.reply (.error e)
  | .panicked => m.endCall .panic

/-- The finish hook has ended. The tickets come back in all three cases (`reopen`), as the drained
gate is let go when the call returns or unwinds. -/
def finishEnded (m : Machine α) : Outcome → Machine α
  | .returned =>
    ((m.report
      (.bundleDrained m.setup.processor.name m.dispatched (.ofMilliseconds (m.now - m.startedAt)))
      bundleSpans).reopen).reply (.ok ())
  | .failed cause =>
    let e := m.hookError .finish cause
    m.reopen.reply (.error e)
  | .panicked => m.reopen.endCall .panic

/-- A call has given up its wait at the gate because of a cancellation. What it had gathered is back
by then, so `outstanding` counts the others. -/
def cancelledAt (m : Machine α) (point : CancelPoint) (e : ExecutionError) : Machine α :=
  (m.report (.admissionCancelled point m.gate.outstanding) bundleSpans).reply (.error e)

/-- The call in progress asks the gate. It stays in its phase while it waits, goes on to `granted`
once it has what it asked for, and ends when the gate turns it away. -/
def askGate (m : Machine α) (request : GateRequest) (granted : Phase α) : Machine α :=
  match m.gate.ask () request with
  | (gate, none) => { m with gate }
  | (gate, some (.ok ())) => { m with gate, producer := granted }
  | (gate, some (.error e)) => { m with gate }.cancelledAt request.point e

def askTicket (m : Machine α) (item : WorkItem α) : Machine α := m.askGate .ticket (.checking item)

def askEverything (m : Machine α) : Machine α := m.askGate .everything .drained

/-- A submission that has its ticket reads the failure cell: once the bundle has failed, it gives
the ticket back and answers with that failure. The cell is not read again before `hand`. -/
def check (m : Machine α) (item : WorkItem α) : Machine α :=
  match m.cell.captured with
  | some f => { m with gate := m.gate.release 1 }.reply (.error f.toError)
  | none => { m with producer := .handing item }

/-- The item gets its number and the backend gets its task. What the backend does with it on the
caller's stack, `receive` decides: run it up to its first wait, drop it, or take it away to be run.
-/
def hand (m : Machine α) (item : WorkItem α) : Machine α :=
  let number := m.dispatched
  let m := m.report (.workItemDispatched number m.gate.outstanding) bundleSpans
  let m := { m with
    dispatched := number + 1
    workers := m.workers ++ [Worker.mk item .queued]
    tally := { m.tally with submitted := m.tally.submitted + 1 } }
  match m.setup.backend.receive number with
  | { polled := true, .. } => { m with producer := .polling number }
  | { verdict := .run, .. } => m.reply (.ok ())
  | _ => { m with producer := .dropping number }

/-- The drain is complete. The captured failure, if there is one, is the answer; otherwise the
finish hook is called, which makes the phase `finishing`. -/
def conclude (m : Machine α) : Machine α :=
  match m.cell.captured with
  | some f =>
    ((m.report (.bundleFailed m.setup.processor.name f.item m.dispatched f.message)
      bundleSpans).reopen).reply (.error f.toError)
  | none => { m with producer := .finishing { script := m.setup.processor.finishHook } }

/-! ## Workers -/

/-- A worker is gone in the middle of its work, by a panic or because its task was dropped: what it
held or waited for goes back, and it is `offering` its loss. -/
def lose (m : Machine α) (number : Nat) (a : Activity α) : Machine α :=
  let m :=
    match a.emitting with
    | some (.queued _) => { m with lock := m.lock.leave number }
    | some (.writing _) =>
      { m with
        lock := m.lock.release 1
        tally := { m.tally with emissions := m.tally.emissions.lose } }
    | none => m
  let m := match a.wait with
    | .supply => { m with supply := m.supply.leave number }
    | _ => m
  let m := { m with tally := { m.tally with bodies := m.tally.bodies.lose } }
  let (f, m) := m.mint number (.lost number)
  m.setPhase number (.offering f .lost)

/-- A worker's code has ended by itself or in a panic, with everything it held given back. The phase
that follows is `leaving` for success and `offering` for both kinds of failure. -/
def workEnded (m : Machine α) (number : Nat) : Outcome → Machine α
  | .returned =>
    { m with tally := { m.tally with bodies := m.tally.bodies.complete } }.setPhase number
      (.leaving .returned)
  | .failed cause =>
    let m := { m with tally := { m.tally with bodies := m.tally.bodies.complete } }
    let (f, m) := m.mint number cause
    m.setPhase number (.offering f (.failed f))
  | .panicked =>
    let m := { m with tally := { m.tally with bodies := m.tally.bodies.lose } }
    let (f, m) := m.mint number (.lost number)
    m.setPhase number (.offering f .lost)

/-- A worker offers its failure to the cell. The loser is counted in a second step, `countLate`, as
the write and the count are two operations of the code. -/
def offer (m : Machine α) (number : Nat) (f : Failure) (ending : Ending) : Machine α :=
  match m.cell.offer f with
  | (true, cell) =>
    ({ m with cell }.report (.workItemFailed m.setup.processor.name number f.message) workerSpans).setPhase
      number (.leaving ending)
  | (false, cell) => { m with cell }.setPhase number (.counting f ending)

def countLate (m : Machine α) (number : Nat) (f : Failure) (ending : Ending) : Machine α :=
  ({ m with cell := m.cell.countLoser }.report
    (.interleavedFailureDropped m.setup.processor.name number f.message) workerSpans).setPhase
    number (.leaving ending)

/-- The backend sees the end of a task it has run. A task that was lost leaves nothing to see. -/
def close (m : Machine α) (number : Nat) (ending : Ending) : Machine α :=
  let m := m.setPhase number (.ended ending)
  match ending with
  | .returned => { m with tally := { m.tally with tasksOk := m.tally.tasksOk + 1 } }
  | .failed f =>
    let m := { m with tally := { m.tally with tasksFailed := m.tally.tasksFailed + 1 } }
    match m.setup.backend.reportsAs with
    | some backend => m.report (.workerTaskFailed backend f.item f.message) []
    | none => m
  | .lost | .unstarted => m

def isLent (m : Machine α) (number : Nat) : Bool :=
  match m.producer with
  | .polling n | .dropping n => n == number
  | _ => false

def isDropped (m : Machine α) (number : Nat) : Bool :=
  match m.producer with
  | .dropping n => n == number
  | _ => false

/-- A worker goes on by one step, if it can. A task that is lent (`isLent`) goes on only up to its
first wait, and nobody sees its end before that call is over. -/
def stepWorker (m : Machine α) (number : Nat) : Option (Machine α) :=
  match m.workers[number]? with
  | none => none
  | some w =>
    match w.phase with
    | .queued =>
      if m.isDropped number then none
      else
        some ({ m with tally := { m.tally with bodies := m.tally.bodies.enter } }.setPhase number
          (.working { script := w.item.script }))
    | .working a =>
      if (if m.isLent number then m.suspended number a.wait else !m.awake number a.wait) then none
      else
        match m.act (.worker number w.item) a with
        | (m, .going a) => some (m.setPhase number (.working a))
        | (m, .over outcome) => some (m.workEnded number outcome)
    | .offering f ending => some (m.offer number f ending)
    | .counting f ending => some (m.countLate number f ending)
    | .leaving ending =>
      some ({ m with gate := m.gate.release 1 }.setPhase number (.closing ending))
    | .closing ending => if m.isLent number then none else some (m.close number ending)
    | .ended _ => none

/-- The backend drops the task of a worker. One that had not begun has made no guard yet and leaves
no trace but its ticket (`unstarted`); any other is lost. -/
def dropTask (m : Machine α) (number : Nat) : Option (Machine α) :=
  match m.workers[number]? with
  | none => none
  | some w =>
    match w.phase with
    | .queued => some (m.setPhase number (.leaving .unstarted))
    | .working a => some (m.lose number a)
    | _ => none

/-! ## The backend inside the producer's call -/

/-- The backend is through with a task inside the producer's call, and says what it makes of it. A
task that it discards is accepted all the same. -/
def verdictOf (m : Machine α) (number : Nat) : Machine α :=
  match (m.setup.backend.receive number).verdict with
  | .run | .discard => m.reply (.ok ())
  | .refuse =>
    let (f, m) := m.mint number (.execution (.backend number m.setup.backend.reason))
    { m with producer := .refused f }

/-- The task that the backend runs inside the producer's call has come to its first wait, or to its
end. With the verdict `run` it is left to be run; any other is dropped, or was over and is
forgotten. -/
def pollEnded (m : Machine α) (number : Nat) : Option (Machine α) :=
  match m.workers[number]? with
  | none => none
  | some w =>
    match w.phase, (m.setup.backend.receive number).verdict with
    | .working a, verdict =>
      if m.suspended number a.wait then
        match verdict with
        | .run => some (m.reply (.ok ()))
        | _ => some ({ m with producer := .dropping number }.lose number a)
      else none
    | .closing _, .run => some (m.reply (.ok ()))
    | .closing ending, _ => some ((m.setPhase number (.ended ending)).verdictOf number)
    | _, _ => none

/-- The task that the backend drops inside the producer's call: it is dropped, and when it has given
back what it held, `verdictOf` tells the rest. -/
def dropEnded (m : Machine α) (number : Nat) : Option (Machine α) :=
  match m.workers[number]? with
  | none => none
  | some w =>
    match w.phase with
    | .queued => m.dropTask number
    | .closing ending => some ((m.setPhase number (.ended ending)).verdictOf number)
    | _ => none

/-! ## Moves -/

/-- The call in progress goes on by one step, if it can. Each case is what the code does between two
points at which somebody else may act. -/
def stepProducer (m : Machine α) : Option (Machine α) :=
  match m.producer with
  | .idle => none
  | .starting hook =>
    if !m.hookAwake hook.wait then none
    else
      match m.act (.hook .start) hook with
      | (m, .going hook) => some { m with producer := .starting hook }
      | (m, .over outcome) => some (m.startEnded outcome)
  | .admitting item => if m.gate.isReady () then some (m.askTicket item) else none
  | .checking item => some (m.check item)
  | .handing item => some (m.hand item)
  | .polling number => m.pollEnded number
  | .dropping number => m.dropEnded number
  | .refused f =>
    match m.cell.offer f with
    | (true, cell) => some ({ m with cell }.reply (.error f.toError))
    | (false, cell) => some { m with cell, producer := .outdone f }
  | .outdone f => some ({ m with cell := m.cell.countLoser }.reply (.error f.toError))
  | .draining => if m.gate.isReady () then some m.askEverything else none
  | .drained => some m.conclude
  | .finishing hook =>
    if !m.hookAwake hook.wait then none
    else
      match m.act (.hook .finish) hook with
      | (m, .going hook) => some { m with producer := .finishing hook }
      | (m, .over outcome) => some (m.finishEnded outcome)

/-- The producer drops the call it waits in. What the call had gathered goes back, and a hook is
gone by `forsakeHook`; phases in which the call does not wait cannot be left so. -/
def abandon (m : Machine α) : Option (Machine α) :=
  match m.producer with
  | .starting hook => some { m.forsakeHook hook with producer := .idle }
  | .admitting _ | .draining => some { m with gate := m.gate.leave (), producer := .idle }
  | .finishing hook => some { (m.forsakeHook hook).reopen with producer := .idle }
  | _ => none

/-- What a move does, if it can happen. Results are proved of `Transition`, which has the same steps
as an inductive relation. -/
def step (m : Machine α) : Move α → Option (Machine α)
  | .call c => if m.isBusy then none else some (m.beginCall c)
  | .abandon => m.abandon
  | .producer => m.stepProducer
  | .worker number => m.stepWorker number
  | .drop number => if m.isLent number then none else m.dropTask number
  | .cancel => some { m with gate := m.gate.cancel }
  | .unlatch name => some { m with openLatches := name :: m.openLatches }
  | .supply n => some { m with supply := m.supply.release n }
  | .closeSupply => some { m with supplyClosed := true }
  | .clock time => if m.now ≤ time then some { m with now := time } else none

/-- A list of moves, each of which can happen when its turn comes. -/
def run (m : Machine α) (moves : List (Move α)) : Option (Machine α) := moves.foldlM step m

end Machine

end WorkBundle
