import WorkBundle.EventTime
import WorkBundle.Tagged

/-!
# Emissions

What reaches the consumer of a bundle: values of the main output, and side values under a tag,
each with a timestamp. A collecting sink keeps them in order of arrival, so it is a list of
emissions; the questions one can ask of it are filters on that list.

The code of an element emits through four calls. Two of them name no timestamp and stand for "at
the time of the element"; `EmitCall.emission?` says what a call emits where an element time is
known, and that without one these two emit nothing.
-/

set_option autoImplicit false

namespace WorkBundle

variable {β ν τ : Type}

inductive Emission (β : Type) (ν : Type := SideValue) where
  | main (value : β) (timestamp : Timestamp)
  | side (output : TaggedValue ν) (timestamp : Timestamp)
  deriving DecidableEq, Repr

def Emission.main? : Emission β ν → Option (β × Timestamp)
  | .main v t => some (v, t)
  | .side .. => none

/-- The value of a side emission under this tag. A value of another type that was emitted under the
same id is passed over (`TaggedValue.get?`), rather than an error. -/
def Emission.sideUnder? [Typed ν τ] [DecidableEq τ] (tag : Tag τ) : Emission β ν → Option ν
  | .main .. => none
  | .side v _ => v.get? tag

def timestampedValues (es : List (Emission β ν)) : List (β × Timestamp) := es.filterMap (·.main?)

def mainValues (es : List (Emission β ν)) : List β := (timestampedValues es).map (·.1)

/-- The values that were emitted under a tag, in order of arrival, whichever element or hook they
come from. -/
def sideValues [Typed ν τ] [DecidableEq τ] (es : List (Emission β ν)) (tag : Tag τ) : List ν :=
  es.filterMap (·.sideUnder? tag)

/-- A call that emits: to the main output or to a side output, and either at a given time
(`outputAt`, `sideAt`) or at the time of the element (`output`, `side`). -/
inductive EmitCall (β : Type) (ν : Type := SideValue) where
  | output (value : β)
  | outputAt (value : β) (timestamp : Timestamp)
  | side (output : TaggedValue ν)
  | sideAt (output : TaggedValue ν) (timestamp : Timestamp)
  deriving DecidableEq, Repr

/-- What a call emits. A call that leaves the time to its element emits nothing where there is none,
which is the case in a hook (`Owner.element?`). -/
def EmitCall.emission? (call : EmitCall β ν) (elementTime : Option Timestamp) :
    Option (Emission β ν) :=
  match call with
  | .output v => elementTime.map (.main v)
  | .outputAt v t => some (.main v t)
  | .side v => elementTime.map (.side v)
  | .sideAt v t => some (.side v t)

end WorkBundle
