import WorkBundle.Parallelism

/-!
# What can go wrong while a bundle runs

Errors are values that say their cause. Two types refer to each other: a `Cause` is what the code
that handles an element or a hook can raise, and it may wrap an `ExecutionError`; an
`ExecutionError` is what the engine answers to its caller, and two of its cases carry a cause.

Every error has one `message` and a list of `sources`, the messages of the errors below it, nearest
first. A captured failure is transparent: it shows the message and the sources of its cause and adds
none of its own. A hook error quotes its cause in its own message and has no sources.
-/

set_option autoImplicit false

namespace WorkBundle

/-- The wait in which a cancellation met the producer: that for an admission ticket, or that for the
work in flight to end. -/
inductive CancelPoint where
  | admission
  | drain
  deriving DecidableEq, Repr

def CancelPoint.description : CancelPoint → String
  | .admission => "waiting for an admission ticket"
  | .drain => "draining in-flight work"

inductive Hook where
  | start
  | finish
  deriving DecidableEq, Repr

def Hook.name : Hook → String
  | .start => "start_bundle"
  | .finish => "finish_bundle"

/-- A producer call that came out of order. Besides the six ways in which an engine can be misused,
`told` is a violation in the words of whoever raised it. -/
inductive LifecycleViolation where
  | startWhileRunning
  | startAfterFinish
  | submitBeforeStart
  | submitAfterFinish
  | finishBeforeStart
  | finishAfterFinish
  | told (text : String)
  deriving DecidableEq, Repr

def LifecycleViolation.message : LifecycleViolation → String
  | .startWhileRunning => "start called on a bundle that is already running"
  | .startAfterFinish => "start called on a finished bundle"
  | .submitBeforeStart => "submit called before start"
  | .submitAfterFinish => "submit called after the bundle finished"
  | .finishBeforeStart => "finish called before start"
  | .finishAfterFinish => "finish called on a finished bundle"
  | .told text => text

mutual

/-- What the processing of an element, or a hook, can end with instead of success. `user` is an
error of the processing code itself with the errors below it, nearest first; `lost` stands for a
task that was gone before it could report, because it panicked or was dropped; `execution` carries
an error of the engine through user code. -/
inductive Cause where
  | user (message : String) (sources : List String)
  | sample (label : String)
  | supplyClosed
  | lost (item : Nat)
  | execution (error : ExecutionError)
  deriving DecidableEq, Repr

/-- What the engine answers to a producer call that does not succeed. `workItem` is the captured
failure of the bundle, with the identity of the capture and the cause as it was raised, so
`ExecutionError.failure?` gets the whole `Failure` back. -/
inductive ExecutionError where
  | invalidConfiguration (rule : ValidationError)
  | cancelled (point : CancelPoint)
  | workItem (item : Nat) (identity : Nat) (cause : Cause)
  | lifecycle (violation : LifecycleViolation)
  | hook (processor : String) (hook : String) (cause : Cause)
  | backend (item : Nat) (reason : String)
  deriving DecidableEq, Repr

end

mutual

def Cause.message : Cause → String
  | .user message _ => message
  | .sample label => s!"example failure: {label}"
  | .supplyClosed => "semaphore closed"
  | .lost item => s!"worker for item {item} terminated before completing (panic or dropped task)"
  | .execution error => error.message

/-- The message of an execution error. A captured failure speaks with the voice of its cause, so
wrapping an error in one does not hide it. -/
def ExecutionError.message : ExecutionError → String
  | .invalidConfiguration rule => s!"Invalid configuration: {rule.message}"
  | .cancelled point => s!"Bundle cancelled while {point.description}"
  | .workItem _ _ cause => cause.message
  | .lifecycle violation => s!"Lifecycle violation: {violation.message}"
  | .hook processor hook cause => s!"Processor '{processor}' {hook} hook failed: {cause.message}"
  | .backend item reason => s!"Execution backend rejected work item {item}: {reason}"

end

mutual

def Cause.sources : Cause → List String
  | .user _ sources => sources
  | .sample _ => []
  | .supplyClosed => []
  | .lost _ => []
  | .execution error => error.sources

/-- The messages of the errors below an execution error, nearest first. A captured failure hands on
those of its cause; an error of a hook has its cause in the message only, and hands on none. -/
def ExecutionError.sources : ExecutionError → List String
  | .invalidConfiguration rule => [rule.message]
  | .workItem _ _ cause => cause.sources
  | .cancelled _ | .lifecycle _ | .hook .. | .backend .. => []

end

/-- The types of the errors that a cause can be. They matter to a reader that asks for an error of
one type (`Cause.downcast?`). -/
inductive ErrorType where
  | user
  | sample
  | supplyClosed
  | lost
  | execution
  deriving DecidableEq, Repr

def ErrorType.Content : ErrorType → Type
  | .user => String × List String
  | .sample => String
  | .supplyClosed => Unit
  | .lost => Nat
  | .execution => ExecutionError

/-- The error that the cause is, if it is of this type: what was raised, with all it is made of
(`ErrorType.Content`), and not only its message. -/
def Cause.downcast? : Cause → (type : ErrorType) → Option type.Content
  | .user message sources, .user => some (message, sources)
  | .sample label, .sample => some label
  | .supplyClosed, .supplyClosed => some ()
  | .lost item, .lost => some item
  | .execution error, .execution => some error
  | _, _ => none

def Cause.chain (c : Cause) : List String := c.message :: c.sources

namespace ExecutionError

def chain (e : ExecutionError) : List String := e.message :: e.sources

def isCancelled : ExecutionError → Bool
  | .cancelled _ => true
  | _ => false

end ExecutionError

abbrev Answer := Except ExecutionError Unit

end WorkBundle
