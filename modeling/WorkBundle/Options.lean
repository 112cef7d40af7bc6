import WorkBundle.Parallelism
import WorkBundle.Value

/-!
# Pipeline options

What a configuration hands to the processing code: the name of the job and free values under keys.
The values are kept in the order in which their keys came up, one per key.
-/

set_option autoImplicit false

namespace WorkBundle

/-- Options that every element and both hooks can read. A key has one value at most (`withValue`),
and the order of the keys says nothing (`same`). -/
structure Options where
  jobName : Option String := none
  values : List (String × Value) := []
  deriving Repr, Inhabited

namespace Options

def withJobName (o : Options) (name : String) : Options := { o with jobName := some name }

def withValue (o : Options) (key : String) (value : Value) : Options :=
  if o.values.any (·.1 == key) then
    { o with values := o.values.map fun e => if e.1 == key then (key, value) else e }
  else { o with values := o.values ++ [(key, value)] }

def get? (o : Options) (key : String) : Option Value := o.values.lookup key

def text? (o : Options) (key : String) : Option String := (o.get? key).bind (·.text?)

/-- The value under a key, if it is an integer that is not negative. Like `text?` and `flag?` this
converts nothing: the text `"3"` is no count. -/
def count? (o : Options) (key : String) : Option Nat := (o.get? key).bind (·.count?)

def flag? (o : Options) (key : String) : Option Bool := (o.get? key).bind (·.flag?)

/-- A job may go without a name, but a name that is given must not be blank (`Text.isBlank`). -/
def validate (o : Options) : Except ValidationError Unit :=
  match o.jobName with
  | some name => if Text.isBlank name then .error .emptyJobName else .ok ()
  | none => .ok ()

def isDefault (o : Options) : Bool := o.jobName.isNone && o.values.isEmpty

def same (a b : Options) : Bool :=
  a.jobName == b.jobName && a.values.length == b.values.length &&
    a.values.all fun e => b.values.any fun f => e.1 == f.1 && e.2.same f.2

end Options

end WorkBundle
