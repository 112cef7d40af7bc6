import WorkBundle.Error
import WorkBundle.Text.Elapsed

/-!
# Log events

What the engine and the configuration loader report while they work. An event is a value that says
what happened; its level, its message, its fields and the span that can be opened for it are
functions of it. A `Record` is an event together with the names of the spans it was logged in,
outermost first.
-/

set_option autoImplicit false

namespace WorkBundle

inductive Level where
  | debug
  | info
  | warn
  | error
  deriving DecidableEq, Repr

def Level.name : Level → String
  | .debug => "DEBUG"
  | .info => "INFO"
  | .warn => "WARN"
  | .error => "ERROR"

inductive Field where
  | text (s : String)
  | number (n : Int)
  deriving DecidableEq, Repr

abbrev Fields := List (String × Field)

/-- Something worth a line in the log, with what the line is about; errors are told by their
message. Three events are about failures: that of an item became that of the bundle
(`workItemFailed`), it came after another one (`interleavedFailureDropped`), or a backend has seen
the end of its task (`workerTaskFailed`). -/
inductive Event where
  | bundleStarted (processor : String) (maxParallelism : Nat)
  | workItemDispatched (item outstanding : Nat)
  | workItemFailed (processor : String) (item : Nat) (error : String)
  | interleavedFailureDropped (processor : String) (item : Nat) (error : String)
  | admissionCancelled (point : CancelPoint) (outstanding : Nat)
  | bundleDrained (processor : String) (items : Nat) (duration : Elapsed)
  | bundleFailed (processor : String) (failedItem items : Nat) (error : String)
  | workerTaskFailed (backend : String) (item : Nat) (error : String)
  | configLoaded (source : String) (maxParallelism : Int)
  | configRejected (source : String) (errorCount : Nat)
  deriving DecidableEq, Repr

namespace Event

def level : Event → Level
  | bundleStarted .. | bundleDrained .. | configLoaded .. => .info
  | workItemDispatched .. => .debug
  | interleavedFailureDropped .. | admissionCancelled .. => .warn
  | workItemFailed .. | bundleFailed .. | workerTaskFailed .. | configRejected .. => .error

def message : Event → String
  | bundleStarted p n => s!"Starting bundle for processor '{p}' with max_parallelism={n}"
  | workItemDispatched i o => s!"Dispatched item {i} ({o} tickets outstanding)"
  | workItemFailed p i e => s!"Processor '{p}' failed on item {i}: {e}"
  | interleavedFailureDropped p i e =>
    s!"Dropping failure of processor '{p}' on item {i} (bundle already failed): {e}"
  | admissionCancelled point o =>
    s!"Bundle cancelled while {point.description} ({o} tickets outstanding)"
  | bundleDrained p n d => s!"Bundle for processor '{p}' finished: {n} items in {d.text}"
  | bundleFailed p f n e =>
    s!"Bundle for processor '{p}' failed after dispatching {n} items (first failure on item {f}): {e}"
  | workerTaskFailed b i e => s!"Worker task for item {i} failed on {b} backend: {e}"
  | configLoaded s n => s!"Loaded configuration from '{s}': max_parallelism={n}"
  | configRejected s n => s!"Configuration '{s}' rejected with {n} validation error(s)"

def fields : Event → Fields
  | bundleStarted p n => [("processor", .text p), ("max_parallelism", .number n)]
  | workItemDispatched i o => [("item", .number i), ("outstanding", .number o)]
  | workItemFailed p i e | interleavedFailureDropped p i e =>
    [("processor", .text p), ("item", .number i), ("error", .text e)]
  | admissionCancelled point o =>
    [("point", .text point.description), ("outstanding", .number o)]
  | bundleDrained p n d =>
    [("processor", .text p), ("items", .number n), ("duration_ms", .number d.milliseconds)]
  | bundleFailed p f n e =>
    [("processor", .text p), ("failed_item", .number f), ("items", .number n), ("error", .text e)]
  | workerTaskFailed b i e => [("backend", .text b), ("item", .number i), ("error", .text e)]
  | configLoaded s n => [("source", .text s), ("max_parallelism", .number n)]
  | configRejected s n => [("source", .text s), ("error_count", .number n)]

def spanName : Event → String
  | bundleStarted .. => "bundle"
  | workItemDispatched .. => "work_item"
  | workItemFailed .. => "work_item_failed"
  | interleavedFailureDropped .. => "interleaved_failure"
  | admissionCancelled .. => "admission_cancelled"
  | bundleDrained .. => "bundle_drained"
  | bundleFailed .. => "bundle_failed"
  | workerTaskFailed .. => "worker_task_failed"
  | configLoaded .. => "config_loaded"
  | configRejected .. => "config_rejected"

def spanFields (label : String) (e : Event) : Fields :=
  ("span_name", .text label) ::
    match e with
    | bundleStarted p n => [("processor", .text p), ("max_parallelism", .number n)]
    | workItemDispatched i _ => [("item", .number i)]
    | workItemFailed p i _ | interleavedFailureDropped p i _ =>
      [("processor", .text p), ("item", .number i)]
    | admissionCancelled point _ => [("point", .text point.description)]
    | bundleDrained p n d =>
      [("processor", .text p), ("items", .number n), ("duration", .text d.text)]
    | bundleFailed p f _ _ => [("processor", .text p), ("failed_item", .number f)]
    | workerTaskFailed b i _ => [("backend", .text b), ("item", .number i)]
    | configLoaded s n => [("source", .text s), ("max_parallelism", .number n)]
    | configRejected s n => [("source", .text s), ("error_count", .number n)]

end Event

/-- An event in the log, with the names of the spans around it, outermost first. -/
structure Record where
  event : Event
  spans : List String := []
  deriving DecidableEq, Repr

end WorkBundle
