import WorkBundle.Machine.State

/-!
# One step of processing code

What a worker, or a hook, does in one step. `Machine.awake` says whether code that waits may go
on; `Machine.act` lets it go on by one step, which either leaves it in progress or ends it with an
outcome.

The two kinds of code differ in one point: an emission of a worker holds the output lock from
before the sink begins to take it in until it is done, an emission of a hook takes no lock.
-/

set_option autoImplicit false

namespace WorkBundle

variable {α : Type}

/-- Whose code it is. That decides which actions are offered, which time an emission gets, and
whether it needs the output lock. -/
inductive Owner (α : Type) where
  | hook (hook : Hook)
  | worker (number : Nat) (item : WorkItem α)

namespace Owner

def source : Owner α → Source
  | .hook .start => .start
  | .hook .finish => .finish
  | .worker _ item => .item item.label

def element? : Owner α → Option (Element α)
  | .hook _ => none
  | .worker _ item => some item.toElement

end Owner

inductive Progress (α : Type) where
  | going (a : Activity α)
  | over (outcome : Outcome)

namespace Machine

/-- May the code of a worker with this `Wait` go on? A granted permit or lock is noticed with the
next step of the worker, which is what lets others see it on its way. -/
def awake (m : Machine α) (number : Nat) : Wait → Bool
  | .nothing => true
  | .clock time => time ≤ m.now
  | .latch name => m.openLatches.contains name
  | .turn => true
  | .lock => m.lock.isGranted number
  | .supply => m.supplyClosed || m.supply.isGranted number

def suspended (m : Machine α) (number : Nat) (wait : Wait) : Bool :=
  wait == .turn || !m.awake number wait

/-- May the code of a hook with this wait go on? A hook takes neither the lock nor permits, so for
all other waits this is `awake` (`hookAwake_eq_awake`). -/
def hookAwake (m : Machine α) : Wait → Bool
  | .nothing => true
  | .clock time => time ≤ m.now
  | .latch name => m.openLatches.contains name
  | .turn => true
  | .lock | .supply => false

def pause (m : Machine α) (ms : Nat) : Wait := if ms = 0 then .nothing else .clock (m.now + ms)

def unlock (m : Machine α) : Owner α → Machine α
  | .hook _ => m
  | .worker .. => { m with lock := m.lock.release 1 }

def beginWriting (m : Machine α) (a : Activity α) (e : Emission (Output α)) :
    Machine α × Progress α :=
  ({ m with tally := { m.tally with emissions := m.tally.emissions.enter } },
    .going { a with wait := .nothing, emitting := some (.writing (m.setup.intake.deliver e)) })

/-- Code asks for an emission. A worker queues for the output lock (`Emitting.queued`), while a hook
begins at once: the context of a hook takes no lock. -/
def requestEmission (m : Machine α) (owner : Owner α) (a : Activity α)
    (e : Emission (Output α)) : Machine α × Progress α :=
  match owner with
  | .hook _ => m.beginWriting a e
  | .worker number _ =>
    ({ m with lock := m.lock.join number 1 },
      .going { a with wait := .lock, emitting := some (.queued e) })

/-- A step of an emission that the sink is taking in. When the sink is done, or panics, the lock
goes back in the same step. -/
def write (m : Machine α) (owner : Owner α) (a : Activity α) :
    List (Delivery α) → Machine α × Progress α
  | [] =>
    ({ m with tally := { m.tally with emissions := m.tally.emissions.complete } }.unlock owner,
      .going { a with wait := .nothing, emitting := none })
  | .pause ms :: steps => (m, .going { a with wait := m.pause ms, emitting := some (.writing steps) })
  | .breathe :: steps => (m, .going { a with wait := .turn, emitting := some (.writing steps) })
  | .write c :: steps =>
    ({ m with written := m.written ++ [c] },
      .going { a with wait := .nothing, emitting := some (.writing steps) })
  | .keep e :: steps =>
    ({ m with arrivals := m.arrivals ++ [⟨m.now, owner.source, e⟩] },
      .going { a with wait := .nothing, emitting := some (.writing steps) })
  | .crash :: _ =>
    ({ m with tally := { m.tally with emissions := m.tally.emissions.lose } }.unlock owner,
      .over .panicked)

/-- The beginning of an action; `a` is the code without it. An action that its place does not offer
ends the code with `Cause.noSuchCall`. -/
def perform (m : Machine α) (owner : Owner α) (a : Activity α) :
    Action α → Machine α × Progress α
  | .sleep ms => (m, .going { a with wait := m.pause ms })
  | .latch name => (m, .going { a with wait := .latch name })
  | .yield => (m, .going { a with wait := .turn })
  | .emit call =>
    match call.emission? (owner.element?.map (·.timestamp)) with
    | some e => m.requestEmission owner a e
    | none => (m, .over (.failed .noSuchCall))
  | .report question named =>
    match emissionTime? owner.element? named with
    | none => (m, .over (.failed .noSuchCall))
    | some time =>
      match m.scope.read owner.element? question with
      | (some r, scope) => { m with scope }.requestEmission owner a (.main (.reading r) time)
      | (none, scope) => ({ m with scope }, .over (.failed .noSuchCall))
  | .add name combiner v => ({ m with scope := m.scope.addTo name combiner v }, .going a)
  | .permit =>
    match owner with
    | .hook _ => (m, .over (.failed .noSuchCall))
    | .worker number _ =>
      if m.supplyClosed then (m, .over (.failed .supplyClosed))
      else ({ m with supply := m.supply.join number 1 }, .going { a with wait := .supply })
  | .enter => ({ m with tally := { m.tally with probe := m.tally.probe.enter } }, .going a)
  | .leave => ({ m with tally := { m.tally with probe := m.tally.probe.complete } }, .going a)
  | .note word => ({ m with tally := { m.tally with notes := m.tally.notes ++ [word] } }, .going a)
  | .fail cause => (m, .over (.failed cause))
  | .panic => (m, .over .panicked)

/-- The end of a wait for a permit. A supply that was closed meanwhile fails the code, even if its
permit was granted already. -/
def takePermit (m : Machine α) (number : Nat) (a : Activity α) : Machine α × Progress α :=
  if m.supplyClosed then
    ({ m with supply := m.supply.leave number }, .over (.failed .supplyClosed))
  else ({ m with supply := m.supply.collect number }, .going { a with wait := .nothing })

/-- One step of code that is awake: it goes on with the emission in progress, or with its wait, or
performs the next action of its script. -/
def act (m : Machine α) (owner : Owner α) (a : Activity α) : Machine α × Progress α :=
  match a.emitting, a.wait, owner with
  | some (.queued e), _, .worker number _ =>
    { m with lock := m.lock.collect number }.beginWriting a e
  | some (.queued e), _, .hook _ => m.beginWriting a e
  | some (.writing steps), _, _ => m.write owner { a with wait := .nothing } steps
  | none, .supply, .worker number _ => m.takePermit number a
  | none, _, _ =>
    match a.script with
    | [] => (m, .over .returned)
    | action :: rest => m.perform owner { a with script := rest, wait := .nothing } action

end Machine

end WorkBundle
