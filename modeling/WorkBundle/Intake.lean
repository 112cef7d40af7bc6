import WorkBundle.Script

/-!
# How a sink takes emissions in

A sink takes an emission in by steps, between which others may run: it may pause, it may let
others have their turn, and at some point it records what it was given. Nothing keeps two
emissions from being taken in at the same time but the output lock of the engine.
-/

set_option autoImplicit false

namespace WorkBundle

variable {α : Type}

/-- A step by which a sink takes an emission in: time passes (`pause`), others may run (`breathe`),
a character is written to the text of the sink, or the emission is recorded (`keep`). With `crash`
the sink panics, in the code that emits. -/
inductive Delivery (α : Type) where
  | pause (ms : Nat)
  | breathe
  | write (c : Char)
  | keep (e : Emission (Output α))
  | crash
  deriving Repr

/-- How a sink takes emissions in, step by step. What a reading says is not known before it is
asked, so its steps are bounded by `readingSteps`, whatever it says; that is what makes the work of
a script a number (`Activity.work`). -/
structure Intake (α : Type) where
  deliver : Emission (Output α) → List (Delivery α)
  readingSteps : Nat
  reading_le : ∀ r t, (deliver (.main (.reading r) t)).length ≤ readingSteps

namespace Intake

/-- A sink that records every emission, after a pause if one is given. On the main values it
`refuses` it panics instead. -/
def collecting (pause : Option Nat) (refuses : Output α → Bool) : Intake α where
  deliver e :=
    let last : Delivery α :=
      match e with
      | .main v _ => if refuses v then .crash else .keep e
      | .side .. => .keep e
    match pause with
    | some ms => [.pause ms, last]
    | none => [last]
  readingSteps := 2
  reading_le r t := by cases pause <;> simp

/-- A sink that writes main values as lines of text, one character at a time, and lets others run
after each. It takes no care that its lines stay whole, so that is up to those who emit. -/
def typing (spell : α → String) : Intake α where
  deliver
    | .main (.given v) _ => ((spell v).toList.flatMap fun c => [.write c, .breathe]) ++ [.write '\n']
    | _ => []
  readingSteps := 0
  reading_le r t := by simp

end Intake

instance : Inhabited (Intake α) := ⟨.collecting none fun _ => false⟩

end WorkBundle
