import WorkBundle.Machine.State

/-!
# Sample processors

Small processors with a known behaviour, to watch an engine at work: they count what is active,
fail or panic where they are told to, or wait for permits that are handed out from outside. Their
elements and outputs are 32-bit numbers, except those of the last one, which writes markers into a
sink that lets others run after every character; if two emissions ever overlapped, the markers
would be torn.
-/

set_option autoImplicit false

namespace WorkBundle

/-- A processor together with the code for each element, as one would write it by hand. The
`WorkItem`s of a bundle come from it by `item`. -/
structure Sample (α ι : Type) where
  processor : Processor α
  body : ι → Script α

namespace Sample

variable {α ι : Type}

def item (s : Sample α ι) (label : Nat) (value : α) (input : ι) : WorkItem α :=
  { label, value, script := s.body input }

def wordLimit : Nat := 4294967296

def emit (n : Nat) : Action Nat := .emit (.output (.given n))

/-- Doubles each element after a delay. A product that does not fit 32 bits (`wordLimit`) is a
panic, as it is in arithmetic that checks for overflow. -/
def doubling (delay : Nat) : Sample Nat Nat where
  processor := { name := "doubling" }
  body n :=
    [.enter, .sleep delay] ++ if 2 * n < wordLimit then [emit (2 * n), .leave] else [.panic]

structure Failing where
  element : Nat
  after : Nat
  label : String
  deriving DecidableEq, Repr

/-- Fails on the elements for which there is an order, and repeats the others after a delay. Of
several orders for one element the last one counts. -/
def failing (delay : Nat) (orders : List Failing) : Sample Nat Nat where
  processor := { name := "failing" }
  body n :=
    match orders.reverse.find? (·.element == n) with
    | some order => [.enter, .sleep order.after, .leave, .fail (.sample order.label)]
    | none => [.enter, .sleep delay, emit n, .leave]

def panicking (on : Nat) : Sample Nat Nat where
  processor := { name := "panicking" }
  body n := if n = on then [.panic] else [emit n]

/-- Takes a permit of the supply for each element before it repeats it (`Action.permit`), so the
test decides by the supply how many elements get through. -/
def gated : Sample Nat Nat where
  processor := { name := "gated" }
  body n := [.enter, .permit, emit n, .leave]

/-- Holds its thread for a while and repeats the element. No time of the clock passes meanwhile, so
to the engine this is a step like any other. -/
def blocking : Sample Nat Nat where
  processor := { name := "blocking_sleep" }
  body n := [.enter, emit n, .leave]

/-- Writes down which hooks were called, and fails in the hook or on the element where it is told
to. -/
def lifecycle (failStart : Bool) (failElement : Option Nat) (failFinish : Bool) :
    Sample Nat Nat where
  processor :=
    { name := "lifecycle"
      startHook := .note "start_bundle" :: if failStart then [.fail (.sample "start")] else []
      finishHook :=
        .note "finish_bundle" ::
          if failFinish then [.fail (.sample "finish")]
          else [.emit (.outputAt (.given (wordLimit - 1)) .greatest)] }
  body n := if failElement = some n then [.fail (.sample "element")] else [emit n]

def padded (n : Nat) : String :=
  let digits := toString n
  String.ofList (List.replicate (4 - digits.length) '0') ++ digits

/-- Lets others run, and then writes the marker of its element. If emissions could overlap, the
markers would come out torn. -/
def marker : Sample String Nat where
  processor := { name := "marker" }
  body n := [.yield, .emit (.output (.given ("<marker-" ++ padded n ++ ">")))]

/-- The lines that a sink which keeps text has written. Empty lines are left out, so a text that
ends with a line break has no line too many. -/
def records (written : List Char) : List String :=
  ((written.splitOn '\n').filter (· ≠ [])).map String.ofList

end Sample

end WorkBundle
