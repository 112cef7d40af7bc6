/-!
# A fair queue for permits

A number of permits, and claims on them that are served strictly in the order in which they
joined. Whatever is free goes to the oldest claim that still lacks something, even if it cannot be
served in full: it *gathers*, and everyone behind it waits. A claim that has all it needs is
*granted* and stays so until its owner collects it.

Giving up is the same at every stage: what a claim has gathered goes back and is dealt out again.
-/

set_option autoImplicit false

namespace WorkBundle

variable {ι : Type}

/-- A claim on `need` permits, of which it has `got` some already. A claim that waits keeps what it
has gathered, so a later one cannot overtake it. -/
structure PermitClaim (ι : Type) where
  id : ι
  need : Nat
  got : Nat := 0
  deriving DecidableEq, Repr

namespace PermitClaim

def missing (c : PermitClaim ι) : Nat := c.need - c.got

def full (c : PermitClaim ι) : PermitClaim ι := { c with got := c.need }

end PermitClaim

/-- What dealing permits to a line of claims comes to: those that are served in full, those that
still lack something, both oldest first, and the permits that nobody needed. -/
structure Dealt (ι : Type) where
  left : Nat
  served : List (PermitClaim ι)
  lacking : List (PermitClaim ι)
  deriving DecidableEq, Repr

/-- Deals permits to a line of claims from the front. Only the first claim that cannot be served in
full gathers what is left over; those behind it get nothing. -/
def deal (n : Nat) : List (PermitClaim ι) → Dealt ι
  | [] => ⟨n, [], []⟩
  | c :: cs =>
    if c.missing ≤ n then
      let d := deal (n - c.missing) cs
      { d with served := c.full :: d.served }
    else ⟨0, [], { c with got := c.got + n } :: cs⟩

/-- Permits and the claims on them. `free` permits are neither held nor gathered; `waiting` claims
still lack something; `granted` claims have all they need and were not collected yet. -/
structure Permits (ι : Type) where
  free : Nat
  waiting : List (PermitClaim ι) := []
  granted : List (PermitClaim ι) := []
  deriving DecidableEq, Repr

namespace Permits

/-- Permits come back, or come new, and are dealt out to `waiting` at once (`deal`). Only those that
are left over become free. -/
def release (p : Permits ι) (n : Nat) : Permits ι :=
  let d := deal n p.waiting
  { free := p.free + d.left, waiting := d.lacking, granted := p.granted ++ d.served }

/-- A new claim joins at the end of the line. What is free goes to it as far as it needs it.
Something is free only if nobody waits, so nobody is overtaken. -/
def join (p : Permits ι) (id : ι) (need : Nat) : Permits ι :=
  release { p with free := 0, waiting := p.waiting ++ [⟨id, need, 0⟩] } p.free

section

variable [DecidableEq ι]

def claims (p : Permits ι) (id : ι) : Bool :=
  p.waiting.any (·.id == id) || p.granted.any (·.id == id)

def isGranted (p : Permits ι) (id : ι) : Bool := p.granted.any (·.id == id)

def gathered (p : Permits ι) (id : ι) : Nat :=
  ((p.waiting ++ p.granted).filter (·.id == id)).foldr (fun c n => c.got + n) 0

/-- The owner of a claim gives it up. The claim is gone, granted or not, and what it had gathered is
dealt out to the others. -/
def leave (p : Permits ι) (id : ι) : Permits ι :=
  release
    { p with waiting := p.waiting.filter (·.id != id), granted := p.granted.filter (·.id != id) }
    (p.gathered id)

def collect (p : Permits ι) (id : ι) : Permits ι :=
  { p with granted := p.granted.filter (·.id != id) }

end

end Permits

end WorkBundle
