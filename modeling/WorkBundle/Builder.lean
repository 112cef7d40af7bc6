import WorkBundle.Config
import WorkBundle.Machine.State

/-!
# From settings to engines

The way to an engine: choose a parallelism (`Unbound`), bind a processor to it (`Bound`), make an
engine for each bundle. Both choices may be made again; the last one of each kind counts. Every
request for a parallelism is checked when it is made, so an engine always gets a valid one, also one
that is made without a builder (`Machine.ofInt`).
-/

set_option autoImplicit false

namespace WorkBundle

variable {α : Type}

structure Unbound where
  parallelism : Parallelism := .standard
  deriving DecidableEq, Repr

structure Bound (α : Type) where
  processor : Processor α
  parallelism : Parallelism
  deriving Repr

/-- Checks a requested parallelism. Every way to build a `Bound` or an engine goes through here, or
through `Parallelism.ofInt` itself, so all of them accept the same numbers. -/
def requestParallelism (requested : Int) : Except ExecutionError Parallelism :=
  match Parallelism.ofInt requested with
  | .ok n => .ok n
  | .error rule => .error (.invalidConfiguration rule)

namespace Unbound

instance : Inhabited Unbound := ⟨{}⟩

def withParallelism (_ : Unbound) (requested : Int) : Except ExecutionError Unbound :=
  (requestParallelism requested).map fun parallelism => { parallelism }

def bind (u : Unbound) (processor : Processor α) : Bound α :=
  { processor, parallelism := u.parallelism }

end Unbound

namespace Bound

def withParallelism (b : Bound α) (requested : Int) : Except ExecutionError (Bound α) :=
  (requestParallelism requested).map fun parallelism => { b with parallelism }

def rebind (b : Bound α) (processor : Processor α) : Bound α := { b with processor }

def engine (b : Bound α) (backend : Backend := default) (intake : Intake α := default)
    (scope : Scope := {}) : Machine α :=
  .new { processor := b.processor, parallelism := b.parallelism, backend, intake } scope

/-- Binds a processor as a configuration asks for, and hands on its options. The options are checked
before the parallelism, so where both are wrong the error is that of the options. -/
def ofConfig (c : Config) (processor : Processor α) : Except ExecutionError (Bound α × Options) :=
  match c.options.validate with
  | .error rule => .error (.invalidConfiguration rule)
  | .ok () =>
    match ({} : Unbound).withParallelism c.effectiveParallelism with
    | .error e => .error e
    | .ok u => .ok (u.bind processor, c.options)

end Bound

/-- An engine made without `Unbound` and `Bound`, for a requested parallelism, if
`requestParallelism` accepts that. -/
def Machine.ofInt (processor : Processor α) (requested : Int) (backend : Backend := default)
    (intake : Intake α := default) (scope : Scope := {}) : Except ExecutionError (Machine α) :=
  (requestParallelism requested).map fun parallelism =>
    .new { processor, parallelism, backend, intake } scope

end WorkBundle
