import WorkBundle.Bundle

/-!
# One thread and a virtual clock

A schedule carries a run out on a single thread. Whoever can go on stands in a queue; the first
goes on until it has to wait, and everyone it has woken joins at the end. Whoever lets others run
stands aside until the queue is empty. Time stands still while anyone can go on, and then jumps to
the next moment at which someone wakes.

Those who wake at the same moment join the queue in the order in which they began to wait.
-/

set_option autoImplicit false

namespace WorkBundle

variable {α : Type}

inductive Actor where
  | producer
  | worker (number : Nat)
  deriving DecidableEq, Repr

def Actor.move : Actor → Move α
  | .producer => .producer
  | .worker number => .worker number

/-- How an actor stands: it has nothing to do (`idle`), it waits, it can go on but lets others run
first (`yielding`), or it can go on. -/
inductive Standing where
  | idle
  | waiting
  | yielding
  | going
  deriving DecidableEq, Repr

def Wait.standing (wait : Wait) (isAwake : Bool) : Standing :=
  if wait = .turn then .yielding else if isAwake then .going else .waiting

namespace Run

def standing (r : Run α) : Actor → Standing
  | .producer =>
    match r.machine.producer with
    | .idle => if r.isBusy then .going else .idle
    | .starting hook | .finishing hook => hook.wait.standing (r.machine.hookAwake hook.wait)
    | .admitting _ | .draining => if r.machine.gate.isReady () then .going else .waiting
    | _ => .going
  | .worker number =>
    match r.machine.workers[number]? with
    | none => .idle
    | some w =>
      match w.phase with
      | .working a => a.wait.standing (r.machine.awake number a.wait)
      | .ended _ => .idle
      | _ => .going

/-- When a sleeping actor wakes. Only those who wait for the clock have an alarm, so if nobody has
one, no passing of time helps. -/
def alarm? (r : Run α) : Actor → Option Nat
  | .producer =>
    match r.machine.producer with
    | .starting { wait := .clock time, .. } | .finishing { wait := .clock time, .. } => some time
    | _ => none
  | .worker number =>
    match r.machine.workers[number]? with
    | some { phase := .working { wait := .clock time, .. }, .. } => some time
    | _ => none

/-- An actor goes on by one step. While the producer's call lends a worker to the backend
(`Reception.polled`), that worker's steps are made by the producer's thread. -/
def goOn (r : Run α) (a : Actor) : Option (Run α) :=
  match r.step a.move with
  | some r => some r
  | none =>
    match a, r.machine.producer with
    | .producer, .polling number | .producer, .dropping number => r.step (.worker number)
    | _, _ => none

end Run

/-- A run on a single thread. `ready` are those who can go on, in the order of their turns; `aside`
those who let others run first; `waiting` those who wait, in the order in which they began to.
Workers below `joined` have been in the queue once. -/
structure Schedule (α : Type) where
  run : Run α
  ready : List Actor := []
  aside : List Actor := []
  waiting : List Actor := []
  joined : Nat := 0

namespace Schedule

def machine (s : Schedule α) : Machine α := s.run.machine

def ofMachine (machine : Machine α) : Schedule α := { run := { machine } }

/-- Workers that were handed over join the queue, except one that the backend still has in hand
(`Machine.isLent`). -/
def joinNew (s : Schedule α) : Schedule α :=
  let fresh := (List.range' s.joined (s.machine.workers.length - s.joined)).filter
    fun number => !s.machine.isLent number
  { s with ready := s.ready ++ fresh.map .worker, joined := s.joined + fresh.length }

def wake (s : Schedule α) : Schedule α :=
  let (still, woken) := s.waiting.partition fun a => s.run.standing a == .waiting
  { s with waiting := still, ready := s.ready ++ woken }

/-- After something has happened in the engine, whoever can go on because of it joins the queue:
first those who wait no longer, then new workers. -/
def update (s : Schedule α) (run : Run α) : Schedule α := { s with run }.wake.joinNew

def park (s : Schedule α) (a : Actor) : Schedule α :=
  match s.run.standing a with
  | .idle => s
  | .waiting => { s with waiting := s.waiting ++ [a] }
  | .yielding => { s with aside := s.aside ++ [a] }
  | .going => { s with ready := s.ready ++ [a] }

/-- An actor has the thread and goes on until it stops (`park`). The number of steps only bounds the
recursion; `Run.stepsLeft` is always enough. -/
def turn (a : Actor) : Nat → Schedule α → Schedule α
  | 0, s => s.park a
  | steps + 1, s =>
    match s.run.goOn a with
    | none => s.park a
    | some run =>
      let s := s.update run
      if s.run.standing a = .going then turn a steps s else s.park a

/-- The actors in the queue have their turns until nobody can go on. Those who stood aside come
last, when the queue is empty. -/
def turns : Nat → Schedule α → Schedule α
  | 0, s => s
  | n + 1, s =>
    match s.ready, s.aside with
    | [], [] => s
    | [], a :: aside => turns n (turn a s.run.stepsLeft { s with ready := aside, aside := [] })
    | a :: ready, _ => turns n (turn a s.run.stepsLeft { s with ready })

/-- Everything happens that can happen without time passing. -/
def settle (s : Schedule α) : Schedule α := turns (s.run.stepsLeft + s.ready.length + s.aside.length) s

def alarm? (s : Schedule α) : Option Nat := (s.waiting.filterMap s.run.alarm?).min?

def apply (s : Schedule α) (move : Move α) : Schedule α :=
  match s.run.step move with
  | some run => s.update run
  | none => s

/-- Time passes up to `limit`, or until `enough`. The clock stops at every moment at which someone
wakes, and lets everything happen that can (`settle`) before it goes on. -/
def passUntil (enough : Run α → Bool) (limit : Nat) : Nat → Schedule α → Schedule α
  | 0, s => s
  | alarms + 1, s =>
    if enough s.run then s
    else
      match s.alarm? with
      | some time =>
        if time ≤ limit then passUntil enough limit alarms (s.apply (.clock time)).settle
        else s.apply (.clock limit)
      | none => s.apply (.clock limit)

def wait (s : Schedule α) (ms : Nat) : Schedule α :=
  passUntil (fun _ => false) (s.machine.now + ms) (s.run.stepsLeft + 1) s

/-- Time passes until the producer has nothing to do, but for `ms` milliseconds at most, since a
script may wait for a latch that nobody opens. -/
def await (s : Schedule α) (ms : Nat) : Schedule α :=
  passUntil (fun run => !run.isBusy) (s.machine.now + ms) (s.run.stepsLeft + 1) s

def produce (s : Schedule α) : Schedule α := turn .producer s.run.stepsLeft s

/-- The producer makes a call and goes on with it at once, ahead of those in the queue, as the code
of the caller does up to its first wait. -/
def call (s : Schedule α) (c : Call α) : Schedule α :=
  match s.run.step (.call c) with
  | some run => { s with run }.produce
  | none => s

/-- The producer drops the call it waits in, and leaves all queues, since it has nothing to do any
more. -/
def abandon (s : Schedule α) : Schedule α :=
  let s := s.apply .abandon
  { s with
    ready := s.ready.filter (· != .producer)
    aside := s.aside.filter (· != .producer)
    waiting := s.waiting.filter (· != .producer) }

def runBundle (machine : Machine α) (items : List (WorkItem α)) (ms : Nat) : Schedule α :=
  let s : Schedule α := { run := .bundle machine items }
  s.produce.settle.await ms

end Schedule

end WorkBundle
