import WorkBundle.Error
import WorkBundle.Text.Quoted

/-!
# The failure of a bundle

A `Failure` is an error captured for an item. It has an identity: clones of a captured failure are
the same failure, two captures of equal errors are not.

A `FailureCell` takes the first failure that is offered and keeps it for good; later offers lose.
Offering is two steps, since they are two operations on shared memory: the cell is set if it was
empty (`FailureCell.offer`), and only afterwards a losing offer is counted
(`FailureCell.countLoser`).
-/

set_option autoImplicit false

namespace WorkBundle

/-- A captured error: the number of its item, the `identity` of the capture, and the cause as it was
raised. Two captures of equal errors differ in identity and in nothing else. -/
structure Failure where
  item : Nat
  identity : Nat
  cause : Cause
  deriving DecidableEq, Repr

/-- The diagnostic form of an error of processing code and of the errors below it. Every level shows
its own message and, as its source, the level below. -/
def Cause.nested (message : String) : List String → String
  | [] => "ScriptError \x7b message: " ++ Text.quoted message ++ ", source: None \x7d"
  | below :: sources =>
    "ScriptError \x7b message: " ++ Text.quoted message ++ ", source: Some(" ++
      Cause.nested below sources ++ ") \x7d"

/-- The diagnostic form of a cause. Only errors of processing code have a form that is ever shown;
the others stand under their message. -/
def Cause.text : Cause → String
  | .user message sources => Cause.nested message sources
  | cause => Text.quoted cause.message

namespace Failure

def toError (f : Failure) : ExecutionError := .workItem f.item f.identity f.cause

def message (f : Failure) : String := f.cause.message

def downcast? (f : Failure) (type : ErrorType) : Option type.Content := f.cause.downcast? type

def text (f : Failure) : String :=
  "WorkItemFailure \x7b item: " ++ toString f.item ++ ", cause: " ++ f.cause.text ++ " \x7d"

/-- Are both failures the same capture? The identity decides (`Failure.same_equivalence`), since
captures of equal errors are to be told apart. -/
def same (f g : Failure) : Bool := f.identity == g.identity

end Failure

def ExecutionError.failure? : ExecutionError → Option Failure
  | .workItem item identity cause => some ⟨item, identity, cause⟩
  | _ => none

/-- A cell for the first failure, which nothing ever takes out again (`captured`), and the number of
offers that came too late (`dropped`). -/
structure FailureCell where
  captured : Option Failure := none
  dropped : Nat := 0
  deriving DecidableEq, Repr

namespace FailureCell

instance : Inhabited FailureCell := ⟨{}⟩

/-- Sets the cell if it is empty, and says whether it did. A loser is counted in a step of its own
(`countLoser`), since others may look at the cell between the two. -/
def offer (c : FailureCell) (f : Failure) : Bool × FailureCell :=
  match c.captured with
  | none => (true, { c with captured := some f })
  | some _ => (false, c)

def countLoser (c : FailureCell) : FailureCell := { c with dropped := c.dropped + 1 }

def trySet (c : FailureCell) (f : Failure) : Bool × FailureCell :=
  match c.offer f with
  | (true, c) => (true, c)
  | (false, c) => (false, c.countLoser)

def isSet (c : FailureCell) : Bool := c.captured.isSome

end FailureCell

end WorkBundle
