import WorkBundle.Gate

/-!
# Calls at a gate, by name

A table of named calls at one gate: those that wait, in the order in which they were made, and those
that were granted and hold tickets. After every batch of moves the waiting calls are asked in their
order, again and again, until none of them answers any more.
-/

set_option autoImplicit false

namespace WorkBundle

structure GateCall where
  serial : Nat
  name : String
  request : GateRequest
  deriving DecidableEq, Repr

inductive GateNote where
  | granted (name : String)
  | failed (name : String) (error : ExecutionError)
  | notHeld
  | notWaiting
  deriving DecidableEq, Repr

/-- A gate with the calls made at it: those that wait in the order in which they were made, and
those that hold tickets in the order in which they were granted. Calls are told apart by
`GateCall.serial`, since names may repeat. -/
structure GateCalls where
  gate : Gate Nat
  waiting : List GateCall := []
  holding : List GateCall := []
  nextSerial : Nat := 0
  deriving DecidableEq, Repr

/-- Something done at the gate from outside. `release` is by the oldest holder of the name and
`abandon` by the oldest call of the name that waits; `look` does nothing, so a batch of it only asks
the waiting calls. -/
inductive GateMove where
  | request (name : String) (request : GateRequest)
  | release (name : String)
  | abandon (name : String)
  | cancel
  | look
  deriving DecidableEq, Repr

namespace GateCalls

def new (gate : Gate Nat) : GateCalls := { gate }

def move (s : GateCalls) : GateMove → GateCalls × List GateNote
  | .request name request =>
    ({ s with
        waiting := s.waiting ++ [⟨s.nextSerial, name, request⟩]
        nextSerial := s.nextSerial + 1 }, [])
  | .release name =>
    match s.holding.find? (·.name == name) with
    | some c =>
      ({ s with
          gate := s.gate.release (c.request.need s.gate.capacity.count)
          holding := s.holding.filter (·.serial != c.serial) }, [])
    | none => (s, [.notHeld])
  | .abandon name =>
    match s.waiting.find? (·.name == name) with
    | some c =>
      ({ s with
          gate := s.gate.leave c.serial
          waiting := s.waiting.filter (·.serial != c.serial) }, [])
    | none => (s, [.notWaiting])
  | .cancel => ({ s with gate := s.gate.cancel }, [])
  | .look => (s, [])

def moves (s : GateCalls) (batch : List GateMove) : GateCalls × List GateNote :=
  batch.foldl (fun (s, notes) m => let (s, more) := s.move m; (s, notes ++ more)) (s, [])

def askOne (s : GateCalls) (c : GateCall) : GateCalls × List GateNote :=
  match s.gate.ask c.serial c.request with
  | (gate, none) => ({ s with gate }, [])
  | (gate, some answer) =>
    let s := { s with gate, waiting := s.waiting.filter (·.serial != c.serial) }
    match answer with
    | .ok () => ({ s with holding := s.holding ++ [c] }, [.granted c.name])
    | .error e => (s, [.failed c.name e])

def askRound (s : GateCalls) : GateCalls × List GateNote :=
  s.waiting.foldl (fun (s, notes) c => let (s, more) := s.askOne c; (s, notes ++ more)) (s, [])

/-- Rounds of asking until a round brings no answer. Each round but the last ends at least one wait,
so as many rounds as there are waits, and one more, are enough. -/
def askRounds : Nat → GateCalls → GateCalls × List GateNote
  | 0, s => (s, [])
  | n + 1, s =>
    match s.askRound with
    | (s, []) => (s, [])
    | (s, notes) => let (s, more) := askRounds n s; (s, notes ++ more)

def settle (s : GateCalls) : GateCalls × List GateNote := askRounds (s.waiting.length + 1) s

/-- A batch of moves, with no call asked in between, and then the waiting calls, until none answers
any more (`settle`). -/
def step (s : GateCalls) (batch : List GateMove) : GateCalls × List GateNote :=
  let (s, before) := s.moves batch
  let (s, after) := s.settle
  (s, before ++ after)

end GateCalls

end WorkBundle
