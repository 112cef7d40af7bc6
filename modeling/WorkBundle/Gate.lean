import WorkBundle.Error
import WorkBundle.Permits

/-!
# The admission gate

A gate has as many tickets as its capacity. An element holds one from its admission until its work
has ended, and a drain needs all of them, so it succeeds only when nothing is in flight.

A call at the gate is asked again and again until it answers (`Gate.ask`). A cancellation wins
over everything: the token is looked at first, so a call that was just granted its tickets still
fails, and gives back what it had.
-/

set_option autoImplicit false

namespace WorkBundle

variable {ι : Type}

inductive GateRequest where
  | ticket
  | everything
  deriving DecidableEq, Repr

def GateRequest.point : GateRequest → CancelPoint
  | .ticket => .admission
  | .everything => .drain

def GateRequest.need (capacity : Nat) : GateRequest → Nat
  | .ticket => 1
  | .everything => capacity

/-- The number of tickets that the call claims of the line. The line takes numbers of 32 bits, so
the capacity is narrowed on its way there; `maxParallelism` is small enough for that to change
nothing. -/
def GateRequest.claim (capacity : Nat) : GateRequest → Nat
  | .ticket => 1
  | .everything => (UInt32.ofNat capacity).toNat

/-- A gate of `capacity` tickets with the cancellation token that its calls look at. Who waits in
the line, and who holds what, is the matter of `Permits`. -/
structure Gate (ι : Type) where
  capacity : Parallelism
  permits : Permits ι
  cancelled : Bool := false
  deriving DecidableEq, Repr

namespace Gate

def new (capacity : Parallelism) : Gate ι := { capacity, permits := { free := capacity.count } }

def ofInt (capacity : Int) : Except ExecutionError (Gate ι) :=
  match Parallelism.ofInt capacity with
  | .ok n => .ok (.new n)
  | .error rule => .error (.invalidConfiguration rule)

/-- Tickets that are held, or gathered by calls that wait. A ticket granted to a call that has not
noticed yet counts as well, which is why this is told from the capacity and not from the holders. -/
def outstanding (g : Gate ι) : Nat := g.capacity.count - g.permits.free

def cancel (g : Gate ι) : Gate ι := { g with cancelled := true }

def release (g : Gate ι) (n : Nat) : Gate ι := { g with permits := g.permits.release n }

section

variable [DecidableEq ι]

def leave (g : Gate ι) (id : ι) : Gate ι := { g with permits := g.permits.leave id }

def isReady (g : Gate ι) (id : ι) : Bool :=
  g.cancelled || g.permits.isGranted id || !g.permits.claims id

/-- Asks a call for its answer, which is `none` while it waits. The first time, the call joins the
line; on success its tickets are its own from here on. A cancellation is looked at first, so it wins
over tickets that were granted. -/
def ask (g : Gate ι) (id : ι) (request : GateRequest) : Gate ι × Option Answer :=
  if g.cancelled then (g.leave id, some (.error (.cancelled request.point)))
  else
    let permits :=
      if g.permits.claims id then g.permits else g.permits.join id (request.claim g.capacity.count)
    if permits.isGranted id then ({ g with permits := permits.collect id }, some (.ok ()))
    else ({ g with permits }, none)

end

end Gate

end WorkBundle
