import WorkBundle.Text.Quoted

/-!
# Typed values under an id

Side outputs and side inputs travel under an id, together with a value that knows its type. Whoever
looks a value up names the id *and* the type it expects, and gets the value only if both match; a
wrong type is treated as absence and never as a conversion.

What the values and their types are is left open where it does not matter (`Typed`). Where nothing
else is said they are `SideValue` and `SideType`.
-/

set_option autoImplicit false

namespace WorkBundle

/-- Values that know their type. Reading a value back from under an id asks for a type, and finds
nothing if the value has another one (`Typed.as?`). -/
class Typed (ν : Type) (τ : outParam Type) where
  typeOf : ν → τ

def Typed.as? {ν τ : Type} [Typed ν τ] [DecidableEq τ] (v : ν) (type : τ) : Option ν :=
  if typeOf v = type then some v else none

inductive SideType where
  | int
  | text
  | flag
  | list
  deriving DecidableEq, Repr

/-- A value that travels beside the main output, or is handed to every element from outside. -/
inductive SideValue where
  | int (value : Int64)
  | text (value : String)
  | flag (value : Bool)
  | list (values : List Int64)
  deriving DecidableEq, Repr

def SideValue.type : SideValue → SideType
  | .int _ => .int
  | .text _ => .text
  | .flag _ => .flag
  | .list _ => .list

instance : Typed SideValue SideType := ⟨SideValue.type⟩

variable {ν τ : Type}

/-- A name for one side output, with the type of the values under it. The type is for reading; only
the id travels with a value (`Tag.value`), so two tags of one id share an output. -/
structure Tag (τ : Type := SideType) where
  id : String
  type : τ
  deriving DecidableEq, Repr

def Tag.text (t : Tag τ) : String := s!"TupleTag({Text.quoted t.id})"

structure TaggedValue (ν : Type := SideValue) where
  id : String
  value : ν
  deriving DecidableEq, Repr

def Tag.value (t : Tag τ) (v : ν) : TaggedValue ν := ⟨t.id, v⟩

namespace TaggedValue

/-- The value, if it was emitted under this tag: the same id, and a value of the type of the tag. -/
def get? [Typed ν τ] [DecidableEq τ] (v : TaggedValue ν) (tag : Tag τ) : Option ν :=
  if v.id = tag.id then Typed.as? v.value tag.type else none

def text (v : TaggedValue ν) : String :=
  "TaggedValue \x7b tag: " ++ Text.quoted v.id ++ ", .. \x7d"

end TaggedValue

/-- The side inputs of a bundle, at most one value under an id (`insert`). Their order is that in
which the ids came first. -/
structure SideInputs where
  entries : List (String × SideValue) := []
  deriving DecidableEq, Repr

namespace SideInputs

instance : Inhabited SideInputs := ⟨{}⟩

def insert (s : SideInputs) (id : String) (value : SideValue) : SideInputs :=
  if s.entries.any (·.1 == id) then
    ⟨s.entries.map fun e => if e.1 == id then (id, value) else e⟩
  else ⟨s.entries ++ [(id, value)]⟩

def get? (s : SideInputs) (id : String) (type : SideType) : Option SideValue :=
  (s.entries.lookup id).bind (Typed.as? · type)

def size (s : SideInputs) : Nat := s.entries.length

def text (s : SideInputs) : String :=
  "SideInputs \x7b views: [" ++ ", ".intercalate (s.entries.map fun e => Text.quoted e.1) ++ "] \x7d"

def ofList (entries : List (String × SideValue)) : SideInputs :=
  entries.foldl (fun s e => s.insert e.1 e.2) {}

end SideInputs

end WorkBundle
