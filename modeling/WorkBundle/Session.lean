import WorkBundle.Schedule

/-!
# Commands to an engine

A session drives an engine from outside, one command at a time. After each command everything
happens that can happen without time passing; what the command has shown is then how the
producer's call stands, and what has arrived and was logged meanwhile.

At most one call is in progress. A call commanded during another one is turned away and changes
nothing.
-/

set_option autoImplicit false

namespace WorkBundle

variable {α : Type}

/-- A command of a session: a call, something done to the engine from outside, or time that passes.
`await` lets time pass until no call is in progress, but not more than this. -/
inductive Command (α : Type) where
  | call (c : Call α)
  | abandon
  | cancel
  | unlatch (name : String)
  | supply (n : Nat)
  | closeSupply
  | wait (ms : Nat)
  | await (ms : Nat)

/-- How the producer's call stands after a command. A call that is made while another is in progress
is turned away (`busy`), and the engine never learns of it. -/
inductive CallState where
  | busy
  | ended (reply : Reply)
  | pending
  | quiet
  deriving Repr

/-- What a command has shown: how the call stands, the emissions and records that are new, and the
engine after the command. -/
structure Shown (α : Type) where
  call : CallState
  arrivals : List (Arrival α)
  records : List Record
  machine : Machine α

namespace Schedule

/-- Carries out a command, up to the point at which only time can help (`Schedule.settle`). -/
def carryOut (s : Schedule α) : Command α → Schedule α
  | .call c => (s.call c).settle
  | .abandon => s.abandon.settle
  | .cancel => (s.apply .cancel).settle
  | .unlatch name => (s.apply (.unlatch name)).settle
  | .supply n => (s.apply (.supply n)).settle
  | .closeSupply => (s.apply .closeSupply).settle
  | .wait ms => s.wait ms
  | .await ms => s.await ms

def callState (before after : Machine α) : CallState :=
  match after.replies.drop before.replies.length with
  | reply :: _ => .ended reply
  | [] => if after.isBusy then .pending else .quiet

def obey (s : Schedule α) (command : Command α) : Schedule α × Shown α :=
  match command, s.machine.isBusy with
  | .call _, true => (s, ⟨.busy, [], [], s.machine⟩)
  | _, _ =>
    let t := s.carryOut command
    (t, {
      call := callState s.machine t.machine
      arrivals := t.machine.arrivals.drop s.machine.arrivals.length
      records := t.machine.log.drop s.machine.log.length
      machine := t.machine })

end Schedule

end WorkBundle
