import WorkBundle.Text.Blank

/-!
# Parallelism

The number of elements of one bundle that may be in flight at the same time. A request is any
signed integer; only `1` up to `Parallelism.limit` is accepted, and everything that sizes a gate
takes a `Parallelism`, so a gate without tickets or with an absurd number of them cannot be made.

`ValidationError` names the rules that a setting can break, here and in the pipeline options.
-/

set_option autoImplicit false

namespace WorkBundle

/-- A rule on the settings that was broken, with the value that broke it: a parallelism that is zero
or negative, one above `maximum`, or a job name that is blank. -/
inductive ValidationError where
  | nonPositiveParallelism (value : Int)
  | parallelismOutOfRange (value : Int) (maximum : Nat)
  | emptyJobName
  deriving DecidableEq, Repr

def ValidationError.message : ValidationError → String
  | .nonPositiveParallelism v => s!"Expected parallelism factor greater than zero, received {v}"
  | .parallelismOutOfRange v m => s!"Parallelism factor {v} exceeds the maximum of {m}"
  | .emptyJobName => "Pipeline option 'job_name' must not be blank"

def maxParallelism : Nat := 65536

/-- How many elements of a bundle may be in flight at once, from one to `maxParallelism`. The bounds
are part of the type, so nothing that takes a `Parallelism` has to check them again. -/
structure Parallelism where
  count : Nat
  one_le : 1 ≤ count := by omega
  le_max : count ≤ maxParallelism := by decide
  deriving DecidableEq, Repr

namespace Parallelism

def standard : Parallelism where
  count := 16

instance : Inhabited Parallelism := ⟨standard⟩

/-- Accepts `1` up to `maxParallelism` unchanged and refuses every other request, saying on which
side of the range it lies. This is the one check of a parallelism. -/
def ofInt (requested : Int) : Except ValidationError Parallelism :=
  if h : requested ≤ 0 then .error (.nonPositiveParallelism requested)
  else if h' : requested.toNat ≤ maxParallelism then
    .ok { count := requested.toNat, one_le := by omega, le_max := h' }
  else .error (.parallelismOutOfRange requested maxParallelism)

end Parallelism

end WorkBundle
