import WorkBundle.Options

/-!
# Configuration

What a configuration document sets: how many elements may be in flight, and the pipeline options.
Both may be left out. The parallelism is kept as it was written, valid or not, so that reading a
document and judging it are two things; `Config.violations` judges, and names every rule that is
broken.
-/

set_option autoImplicit false

namespace WorkBundle

/-- The settings of a bundle. `maxParallelism` is what was asked for and may be any number: it is
judged by `violations` or when a processor is bound, and not when it is read. -/
structure Config where
  maxParallelism : Option Int := none
  options : Options := {}
  deriving Repr, Inhabited

namespace Config

def effectiveParallelism (c : Config) : Int := c.maxParallelism.getD Parallelism.standard.count

/-- Every rule that the settings break, that on the parallelism first. Building stops at the first
rule it meets (`Bound.ofConfig`), so this says more than the error of building does. -/
def violations (c : Config) : List ValidationError :=
  (match c.maxParallelism with
    | some requested =>
      match Parallelism.ofInt requested with
      | .ok _ => []
      | .error rule => [rule]
    | none => []) ++
  (match c.options.validate with
    | .ok () => []
    | .error rule => [rule])

end Config

end WorkBundle
