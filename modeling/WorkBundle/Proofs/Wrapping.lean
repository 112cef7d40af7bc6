import WorkBundle.Proofs.Runs
import WorkBundle.Proofs.Workers

/-!
# Failures are transparent

Whoever reports an error shows its message and goes on to the error below it, as long as there is
one. `Walk` is that walk, made of single steps (`AnyError.source?`); it comes by just the messages
of the `chain`. A captured failure takes the message of its cause and leads to what is below the
cause, so it is passed without a trace: the walk is that of the cause, and where the cause is a
failure that was raised again, that of the error at the bottom (`Cause.innermost`).

`FailureUse` is what can be done with failures: errors are captured, the handles on them are cloned
and converted, a failure is raised again as the error of another item, and the error in it is taken
out. A handle stays with its capture, whatever is done; captures are told apart by the identity
that each one is given when it is made.
-/

set_option autoImplicit false

namespace WorkBundle

variable {α : Type}

/-! ## The walk along the sources -/

/-- An error that is met on the way from one error to the next below it (`source?`). The types of
the program are four, and a walk goes from one to another, so they are summed up here. -/
inductive AnyError where
  | cause (c : Cause)
  | failure (f : Failure)
  | execution (e : ExecutionError)
  | rule (rule : ValidationError)
  /-- An error below one of processing code, with the messages of those below it. -/
  | below (message : String) (sources : List String)

def AnyError.first? : List String → Option AnyError
  | [] => none
  | message :: sources => some (.below message sources)

mutual

def Cause.source? : Cause → Option AnyError
  | .user _ sources => AnyError.first? sources
  | .sample _ | .supplyClosed | .lost _ => none
  | .execution e => e.source?

/-- The error below an execution error. For a `workItem` it is the one below its cause: failure and
cause are shown as one, and the cause itself is passed over. -/
def ExecutionError.source? : ExecutionError → Option AnyError
  | .invalidConfiguration rule => some (.rule rule)
  | .workItem _ _ c => c.source?
  | .cancelled _ | .lifecycle _ | .hook .. | .backend .. => none

end

namespace AnyError

def message : AnyError → String
  | .cause c => c.message
  | .failure f => f.message
  | .execution e => e.message
  | .rule r => r.message
  | .below message _ => message

def source? : AnyError → Option AnyError
  | .cause c => c.source?
  | .failure f => f.cause.source?
  | .execution e => e.source?
  | .rule _ => none
  | .below _ sources => first? sources

/-- The messages of the errors below, nearest first. Here they are computed at once, by recursion on
the error; `walk_iff` says that stepping through them by `source?` meets the same. -/
def sources : AnyError → List String
  | .cause c => c.sources
  | .failure f => f.cause.sources
  | .execution e => e.sources
  | .rule _ => []
  | .below _ sources => sources

end AnyError

/-- The messages that are met from this error on, where each step leads to the error below, by
`source?`. This is what whoever reports an error does. -/
inductive Walk : AnyError → List String → Prop
  | last {e : AnyError} (bottom : e.source? = none) : Walk e [e.message]
  | next {e below : AnyError} {messages : List String} (source : e.source? = some below)
      (rest : Walk below messages) : Walk e (e.message :: messages)

def AnyError.follow (below : Option AnyError) : List String :=
  below.elim [] fun e => e.message :: e.sources

@[simp] theorem AnyError.follow_first? (messages : List String) :
    follow (first? messages) = messages := by
  cases messages <;> rfl

mutual

theorem Cause.sources_eq : ∀ c : Cause, c.sources = AnyError.follow c.source?
  | .user _ sources => (AnyError.follow_first? sources).symm
  | .sample _ | .supplyClosed | .lost _ => rfl
  | .execution e => e.sources_eq

theorem ExecutionError.sources_eq : ∀ e : ExecutionError, e.sources = AnyError.follow e.source?
  | .invalidConfiguration _ => rfl
  | .workItem _ _ c => c.sources_eq
  | .cancelled _ | .lifecycle _ | .hook .. | .backend .. => rfl

end

theorem AnyError.sources_eq (e : AnyError) : e.sources = follow e.source? := by
  cases e with
  | cause c => exact c.sources_eq
  | failure f => exact f.cause.sources_eq
  | execution e => exact e.sources_eq
  | rule => rfl
  | below _ sources => exact (follow_first? sources).symm

theorem Walk.messages_eq {e : AnyError} {messages : List String} (h : Walk e messages) :
    messages = e.message :: e.sources := by
  induction h with
  | last bottom => rw [AnyError.sources_eq, bottom]; rfl
  | next source _ ih => rw [AnyError.sources_eq, source, ih]; rfl

theorem walk_sources {e : AnyError} {sources : List String} (h : e.sources = sources) :
    Walk e (e.message :: sources) := by
  induction sources generalizing e with
  | nil =>
    rw [AnyError.sources_eq] at h
    cases hsource : e.source? with
    | none => exact .last hsource
    | some below =>
      rw [hsource] at h
      cases h
  | cons message sources ih =>
    rw [AnyError.sources_eq] at h
    cases hsource : e.source? with
    | none =>
      rw [hsource] at h
      cases h
    | some below =>
      rw [hsource] at h
      obtain ⟨rfl, hbelow⟩ := List.cons.inj h
      exact .next hsource (ih hbelow)

theorem walk_iff {e : AnyError} {messages : List String} :
    Walk e messages ↔ messages = e.message :: e.sources :=
  ⟨Walk.messages_eq, fun h => h ▸ walk_sources rfl⟩

/-! ## What a failure is made of -/

def Cause.failure? : Cause → Option Failure
  | .execution e => e.failure?
  | _ => none

mutual

/-- The error at the bottom, where a failure that was raised again is opened as often as it was.
Only a `workItem` is opened: it is the one error that stands for another. -/
def Cause.innermost : Cause → Cause
  | .execution e => e.innermost
  | c => c

def ExecutionError.innermost : ExecutionError → Cause
  | .workItem _ _ c => c.innermost
  | e => .execution e

end

mutual

theorem Cause.chain_innermost : ∀ c : Cause, c.innermost.chain = c.chain
  | .user .. | .sample _ | .supplyClosed | .lost _ => rfl
  | .execution e => e.chain_innermost

/-- A captured failure shows what the error at its bottom shows, by recursion on the nesting of
`workItem`. -/
theorem ExecutionError.chain_innermost : ∀ e : ExecutionError, e.innermost.chain = e.chain
  | .workItem _ _ c => c.chain_innermost
  | .invalidConfiguration _ | .cancelled _ | .lifecycle _ | .hook .. | .backend .. => rfl

end

theorem walk_cause {c : Cause} {messages : List String} :
    Walk (.cause c) messages ↔ messages = c.innermost.chain := by
  rw [walk_iff, c.chain_innermost]
  rfl

theorem Cause.innermost_of_failure?_eq_none {c : Cause} (h : c.failure? = none) :
    c.innermost = c := by
  cases c with
  | execution e =>
    cases e with
    | workItem => cases h
    | _ => rfl
  | _ => rfl

theorem ExecutionError.eq_toError {e : ExecutionError} {f : Failure} (h : e.failure? = some f) :
    e = f.toError := by
  cases e with
  | workItem =>
    cases h
    rfl
  | _ => cases h

/-- An error of this type, as a cause. `Cause.downcast?` is its inverse. -/
def ErrorType.box : (type : ErrorType) → type.Content → Cause
  | .user, (message, sources) => .user message sources
  | .sample, label => .sample label
  | .supplyClosed, _ => .supplyClosed
  | .lost, item => .lost item
  | .execution, error => .execution error

theorem Cause.downcast?_eq_some {c : Cause} {type : ErrorType} {content : type.Content} :
    c.downcast? type = some content ↔ c = type.box content := by
  constructor
  · intro h
    cases c <;> cases type <;> cases h <;> rfl
  · rintro rfl
    cases type <;> rfl

/-! ## Handles on failures -/

/-- A handle on a failure: the failure, or the `ExecutionError` that it was converted into. Both
have to do the same, or a failure would change with its type. -/
inductive FailureHandle where
  | failure (f : Failure)
  | error (e : ExecutionError)
  deriving DecidableEq, Repr

namespace FailureHandle

def failure? : FailureHandle → Option Failure
  | .failure f => some f
  | .error e => e.failure?

def toError : FailureHandle → ExecutionError
  | .failure f => f.toError
  | .error e => e

def shown : FailureHandle → AnyError
  | .failure f => .failure f
  | .error e => .execution e

theorem toError_eq {h : FailureHandle} {f : Failure} (hf : h.failure? = some f) :
    h.toError = f.toError := by
  cases h with
  | failure =>
    cases hf
    rfl
  | error e => exact ExecutionError.eq_toError hf

theorem walk_shown {h : FailureHandle} {f : Failure} (hf : h.failure? = some f)
    {messages : List String} : Walk h.shown messages ↔ Walk (.cause f.cause) messages := by
  rw [walk_iff, walk_iff]
  cases h with
  | failure =>
    cases hf
    rfl
  | error e =>
    obtain rfl := ExecutionError.eq_toError hf
    rfl

end FailureHandle

/-- An error that was captured for an item; if it is a failure that was raised again, `again?` is
the number of the capture of that failure. -/
structure Capture where
  item : Nat
  cause : Cause
  again? : Option Nat := none
  deriving DecidableEq, Repr

/-- What somebody does with failures. `raise` and `raiseAgain` capture an error for an item; the
others obtain handles, which are what a caller can compare. -/
inductive FailureMove where
  | raise (item : Nat) (cause : Cause)
  /-- The failure behind this handle is the error of an item, and is captured. -/
  | raiseAgain (item : Nat) (handle : Nat)
  | clone (handle : Nat)
  | convert (handle : Nat)
  | ask (handle : Nat)
  /-- The error that was raised is taken out, which has to be a failure that was raised again. -/
  | takeOut (handle : Nat)
  deriving DecidableEq, Repr

/-- Failures in use. The engine is there for `Machine.mint` alone, so that a failure is made as it
is in a run. -/
structure FailureUse (α : Type) where
  machine : Machine α
  /-- The captures, oldest first; the place of a capture is its number. -/
  captures : List Capture := []
  /-- The handles that were obtained, each with the number of the capture it comes from; the place
  of a handle is its number. -/
  handles : List (Nat × FailureHandle) := []

namespace FailureUse

def capture (u : FailureUse α) (c : Capture) : FailureUse α :=
  let (f, machine) := u.machine.mint c.item c.cause
  { machine
    captures := u.captures ++ [c]
    handles := u.handles ++ [(u.captures.length, .failure f)] }

def obtain (u : FailureUse α) (number : Nat) (h : FailureHandle) : FailureUse α :=
  { u with handles := u.handles ++ [(number, h)] }

/-- What a move does, if it can be made: a move that asks for something that is not there fails.
`Stepped` is this without its tests. -/
def step (u : FailureUse α) : FailureMove → Option (FailureUse α)
  | .raise item cause =>
    match cause.failure? with
    | some _ => none
    | none => some (u.capture { item, cause })
  | .raiseAgain item handle =>
    u.handles[handle]?.map fun (number, h) =>
      u.capture { item, cause := .execution h.toError, again? := some number }
  | .clone handle => u.handles[handle]?.map fun (number, h) => u.obtain number h
  | .convert handle =>
    match u.handles[handle]? with
    | some (number, .failure f) => some (u.obtain number (.error f.toError))
    | _ => none
  | .ask handle =>
    match u.handles[handle]? with
    | some (number, .error e) => e.failure?.map fun f => u.obtain number (.failure f)
    | _ => none
  | .takeOut handle => do
    let (number, h) ← u.handles[handle]?
    let f ← h.failure?
    let e : ExecutionError ← f.downcast? .execution
    let c ← u.captures[number]?
    let inner ← c.again?
    some (u.obtain inner (.error e))

def run (u : FailureUse α) (moves : List FailureMove) : Option (FailureUse α) :=
  moves.foldlM step u

inductive Stepped (u : FailureUse α) : FailureMove → FailureUse α → Prop
  | raised {item : Nat} {cause : Cause} (plain : cause.failure? = none) :
      Stepped u (.raise item cause) (u.capture { item, cause })
  | raisedAgain {item handle number : Nat} {h : FailureHandle}
      (held : u.handles[handle]? = some (number, h)) :
      Stepped u (.raiseAgain item handle)
        (u.capture { item, cause := .execution h.toError, again? := some number })
  | cloned {handle number : Nat} {h : FailureHandle}
      (held : u.handles[handle]? = some (number, h)) :
      Stepped u (.clone handle) (u.obtain number h)
  | converted {handle number : Nat} {f : Failure}
      (held : u.handles[handle]? = some (number, .failure f)) :
      Stepped u (.convert handle) (u.obtain number (.error f.toError))
  | asked {handle number : Nat} {e : ExecutionError} {f : Failure}
      (held : u.handles[handle]? = some (number, .error e)) (carries : e.failure? = some f) :
      Stepped u (.ask handle) (u.obtain number (.failure f))
  | takenOut {handle number inner : Nat} {h : FailureHandle} {f : Failure} {e : ExecutionError}
      {c : Capture} (held : u.handles[handle]? = some (number, h)) (behind : h.failure? = some f)
      (content : f.cause = .execution e) (capture : u.captures[number]? = some c)
      (again : c.again? = some inner) :
      Stepped u (.takeOut handle) (u.obtain inner (.error e))

variable {u u' : FailureUse α} {move : FailureMove}

theorem stepped_of_step (h : u.step move = some u') : Stepped u move u' := by
  cases move with
  | raise item cause =>
    simp only [step] at h
    cases hplain : cause.failure? with
    | some f =>
      rw [hplain] at h
      cases h
    | none =>
      rw [hplain] at h
      cases h
      exact .raised hplain
  | raiseAgain item handle =>
    obtain ⟨⟨number, h'⟩, held, rfl⟩ := Option.map_eq_some_iff.mp h
    exact .raisedAgain held
  | clone handle =>
    obtain ⟨⟨number, h'⟩, held, rfl⟩ := Option.map_eq_some_iff.mp h
    exact .cloned held
  | convert handle =>
    simp only [step] at h
    split at h
    · rename_i held
      cases h
      exact .converted held
    · cases h
  | ask handle =>
    simp only [step] at h
    split at h
    · rename_i held
      obtain ⟨f, carries, rfl⟩ := Option.map_eq_some_iff.mp h
      exact .asked held carries
    · cases h
  | takeOut handle =>
    obtain ⟨⟨number, h'⟩, held, h⟩ := Option.bind_eq_some_iff.mp h
    obtain ⟨f, behind, h⟩ := Option.bind_eq_some_iff.mp h
    obtain ⟨e, content, h⟩ := Option.bind_eq_some_iff.mp h
    obtain ⟨c, capture, h⟩ := Option.bind_eq_some_iff.mp h
    obtain ⟨inner, again, h⟩ := Option.bind_eq_some_iff.mp h
    cases h
    exact .takenOut held behind (Cause.downcast?_eq_some.mp content) capture again

/-! ## A handle stays with its capture -/

/-- The failure of the capture with this number, where `base` failures were made before. -/
def made (base number : Nat) (c : Capture) : Failure := ⟨c.item, base + number, c.cause⟩

/-- The error of a capture is no failure, or the failure of the earlier capture that it names. That
it is earlier is why nesting ends (`bottom_of_capture`). -/
def Built (base : Nat) (captures : List Capture) (number : Nat) (c : Capture) : Prop :=
  match c.again? with
  | none => c.cause.failure? = none
  | some inner => inner < number ∧ ∃ c', captures[inner]? = some c' ∧
      c.cause = .execution (made base inner c').toError

/-- Every handle is one on the failure of its capture, as `made` computes it. -/
structure Kept (base : Nat) (u : FailureUse α) : Prop where
  minted : u.machine.minted = base + u.captures.length
  built : ∀ number c, u.captures[number]? = some c → Built base u.captures number c
  held : ∀ number h, (number, h) ∈ u.handles →
    ∃ c, u.captures[number]? = some c ∧ h.failure? = some (made base number c)

variable {base : Nat}

theorem Built.append {captures : List Capture} {number : Nat} {c : Capture}
    (h : Built base captures number c) (last : Capture) :
    Built base (captures ++ [last]) number c := by
  unfold Built at h ⊢
  split at h
  · exact h
  · obtain ⟨hlt, c', hc', hcause⟩ := h
    exact ⟨hlt, c', getElem?_append_of_some hc' _, hcause⟩

namespace Kept

theorem new (machine : Machine α) : Kept machine.minted { machine } where
  minted := rfl
  built := fun _ _ h => by cases h
  held := fun _ _ h => by cases h

theorem obtain (hu : Kept base u) {number : Nat} {h : FailureHandle} {c : Capture}
    (hc : u.captures[number]? = some c) (hf : h.failure? = some (made base number c)) :
    Kept base (u.obtain number h) := by
  refine ⟨hu.minted, hu.built, ?_⟩
  intro number' h' hmem
  rcases List.mem_append.mp hmem with hmem | hmem
  · exact hu.held number' h' hmem
  · cases List.mem_singleton.mp hmem
    exact ⟨c, hc, hf⟩

theorem capture (hu : Kept base u) {c : Capture}
    (hc : Built base u.captures u.captures.length c) : Kept base (u.capture c) := by
  refine ⟨?_, ?_, ?_⟩
  · show u.machine.minted + 1 = base + (u.captures ++ [c]).length
    rw [hu.minted, List.length_append, List.length_singleton, Nat.add_assoc]
  · intro number c' hc'
    rcases getElem?_concat_cases hc' with ⟨rfl, rfl⟩ | hc'
    · exact hc.append c'
    · exact (hu.built number c' hc').append c
  · intro number h hmem
    rcases List.mem_append.mp hmem with hmem | hmem
    · obtain ⟨c', hc', hf⟩ := hu.held number h hmem
      exact ⟨c', getElem?_append_of_some hc' _, hf⟩
    · cases List.mem_singleton.mp hmem
      refine ⟨c, List.getElem?_concat_length, ?_⟩
      rw [made, ← hu.minted]
      rfl

theorem failure_eq (hu : Kept base u) {handle number : Nat} {h : FailureHandle}
    (held : u.handles[handle]? = some (number, h)) :
    ∃ c, u.captures[number]? = some c ∧ h.failure? = some (made base number c) :=
  hu.held number h (List.mem_of_getElem? held)

theorem inner_of_again (hu : Kept base u) {number inner : Nat} {c : Capture}
    (hc : u.captures[number]? = some c) (again : c.again? = some inner) :
    inner < number ∧ ∃ c', u.captures[inner]? = some c' ∧
      c.cause = .execution (made base inner c').toError := by
  have hbuilt := hu.built number c hc
  rwa [Built, again] at hbuilt

theorem step (hu : Kept base u) (h : Stepped u move u') : Kept base u' := by
  cases h with
  | raised plain => exact hu.capture plain
  | @raisedAgain item handle number h held =>
    obtain ⟨c, hc, hf⟩ := hu.failure_eq held
    apply hu.capture
    refine ⟨(List.getElem?_eq_some_iff.mp hc).1, c, hc, ?_⟩
    rw [FailureHandle.toError_eq hf]
  | cloned held =>
    obtain ⟨c, hc, hf⟩ := hu.failure_eq held
    exact hu.obtain hc hf
  | converted held =>
    obtain ⟨c, hc, hf⟩ := hu.failure_eq held
    cases hf
    exact hu.obtain hc rfl
  | asked held carries =>
    obtain ⟨c, hc, hf⟩ := hu.failure_eq held
    exact hu.obtain hc (carries.symm.trans hf)
  | takenOut held behind content capture again =>
    obtain ⟨c, hc, hf⟩ := hu.failure_eq held
    cases behind.symm.trans hf
    cases capture.symm.trans hc
    obtain ⟨-, c', hc', hcause⟩ := hu.inner_of_again hc again
    cases content.symm.trans hcause
    exact hu.obtain hc' rfl

theorem run {moves : List FailureMove} (hu : Kept base u) (hrun : u.run moves = some u') :
    Kept base u' :=
  foldlM_invariant (A := fun _ => True) (fun hu _ hs => hu.step (stepped_of_step hs)) hu
    (fun _ _ => trivial) hrun

end Kept

/-! ## Down to the bottom -/

/-- The first capture is of the failure of the second, raised again (`again?`) any number of times.
-/
inductive Wraps (captures : List Capture) : Nat → Nat → Prop
  | self {number : Nat} : Wraps captures number number
  | again {number inner bottom : Nat} {c : Capture} (capture : captures[number]? = some c)
      (again : c.again? = some inner) (rest : Wraps captures inner bottom) :
      Wraps captures number bottom

namespace Kept

theorem innermost_of_again (hu : Kept base u) {number inner : Nat} {c : Capture}
    (hc : u.captures[number]? = some c) (again : c.again? = some inner) :
    ∃ c', u.captures[inner]? = some c' ∧ c.cause.innermost = c'.cause.innermost := by
  obtain ⟨-, c', hc', hcause⟩ := hu.inner_of_again hc again
  refine ⟨c', hc', ?_⟩
  rw [hcause]
  rfl

/-- To raise a failure again does not change what is at its bottom, so by `walk_of_wraps` it does
not change what is met either. -/
theorem innermost_of_wraps (hu : Kept base u) {number bottom : Nat}
    (h : Wraps u.captures number bottom) {c c' : Capture} (hc : u.captures[number]? = some c)
    (hc' : u.captures[bottom]? = some c') : c.cause.innermost = c'.cause.innermost := by
  induction h generalizing c with
  | self =>
    cases hc.symm.trans hc'
    rfl
  | again capture again _ ih =>
    cases capture.symm.trans hc
    obtain ⟨c₁, hc₁, hinner⟩ := hu.innermost_of_again hc again
    exact hinner.trans (ih hc₁ hc')

theorem bottom_of_capture (hu : Kept base u) {number : Nat} {c : Capture}
    (hc : u.captures[number]? = some c) :
    ∃ bottom c', Wraps u.captures number bottom ∧ u.captures[bottom]? = some c' ∧
      c'.again? = none ∧ c'.cause = c.cause.innermost := by
  induction number using Nat.strongRecOn generalizing c with
  | ind number ih =>
    cases again : c.again? with
    | none =>
      have hbuilt := hu.built number c hc
      rw [Built, again] at hbuilt
      exact ⟨number, c, .self, hc, again, (Cause.innermost_of_failure?_eq_none hbuilt).symm⟩
    | some inner =>
      obtain ⟨hlt, -⟩ := hu.inner_of_again hc again
      obtain ⟨c₁, hc₁, hinner⟩ := hu.innermost_of_again hc again
      obtain ⟨bottom, c', hwraps, hc', hnone, hcause⟩ := ih inner hlt hc₁
      exact ⟨bottom, c', .again hc again hwraps, hc', hnone, hcause.trans hinner.symm⟩

theorem walk_of_wraps (hu : Kept base u) {number bottom : Nat}
    (h : Wraps u.captures number bottom) {c c' : Capture} (hc : u.captures[number]? = some c)
    (hc' : u.captures[bottom]? = some c') {messages : List String} :
    Walk (.cause c.cause) messages ↔ Walk (.cause c'.cause) messages := by
  rw [walk_cause, walk_cause, hu.innermost_of_wraps h hc hc']

/-- Handles are on the `same` failure just when they come from the same capture. Equal errors that
were captured apart are told apart. -/
theorem same_iff (hu : Kept base u) {number number' : Nat} {h h' : FailureHandle} {f f' : Failure}
    (held : (number, h) ∈ u.handles) (held' : (number', h') ∈ u.handles)
    (hf : h.failure? = some f) (hf' : h'.failure? = some f') :
    f.same f' = true ↔ number = number' := by
  obtain ⟨c, -, hmade⟩ := hu.held number h held
  obtain ⟨c', -, hmade'⟩ := hu.held number' h' held'
  cases hf.symm.trans hmade
  cases hf'.symm.trans hmade'
  rw [Failure.same, beq_iff_eq]
  exact Nat.add_left_cancel_iff

end Kept

end FailureUse

theorem Failure.same_equivalence : Equivalence fun f g : Failure => f.same g = true where
  refl := fun f => beq_self_eq_true f.identity
  symm := by
    intro f g h
    rw [same, beq_iff_eq] at h ⊢
    exact h.symm
  trans := by
    intro f g k hfg hgk
    rw [same, beq_iff_eq] at hfg hgk ⊢
    exact hfg.trans hgk

namespace FailureUse

/-- **Failures are transparent.** Whatever error an engine captures, with any errors below it, and
be it a failure that was captured before, at any depth: the messages that are met from the failure
on, as an error that a call answers with, are those that are met from the error on, which are those
of the error at its bottom.

And whatever is done with the failures that were captured: behind each handle is the failure of the
capture that the handle comes from, with its item and with its error, which is taken out as the type
that it has and as no other. From the handle on the same messages are met as from the error of that
capture, and from those of the captures that it has raised again, down to an error that is no
failure. Two handles are on the same failure if and only if they come from one capture, whatever
the items and the errors are; and to be the same failure is an equivalence. -/
theorem failures_are_transparent {machine : Machine α} {moves : List FailureMove}
    {u : FailureUse α} (hrun : FailureUse.run { machine } moves = some u) :
    (∀ item cause messages,
      (Walk (.execution (machine.mint item cause).1.toError) messages ↔
        Walk (.cause cause) messages) ∧
      (Walk (.cause cause) messages ↔ messages = cause.innermost.chain)) ∧
    (∀ number h, (number, h) ∈ u.handles → ∃ c f,
      u.captures[number]? = some c ∧ h.failure? = some f ∧ f.item = c.item ∧ f.cause = c.cause ∧
      (∀ type content, f.downcast? type = some content ↔ c.cause = type.box content) ∧
      (∀ bottom c' messages, Wraps u.captures number bottom → u.captures[bottom]? = some c' →
        (Walk h.shown messages ↔ Walk (.cause c'.cause) messages)) ∧
      ∃ bottom c', Wraps u.captures number bottom ∧ u.captures[bottom]? = some c' ∧
        c'.again? = none ∧ c'.cause = c.cause.innermost) ∧
    (∀ number h f number' h' f', (number, h) ∈ u.handles → (number', h') ∈ u.handles →
      h.failure? = some f → h'.failure? = some f' → (f.same f' = true ↔ number = number')) ∧
    Equivalence fun f g : Failure => f.same g = true := by
  have hu := (Kept.new machine).run hrun
  refine ⟨?_, ?_, ?_, Failure.same_equivalence⟩
  · intro item cause messages
    have hraised : (FailureHandle.error (machine.mint item cause).1.toError).failure? =
        some (machine.mint item cause).1 := rfl
    exact ⟨FailureHandle.walk_shown hraised, walk_cause⟩
  · intro number h held
    obtain ⟨c, hc, hf⟩ := hu.held number h held
    refine ⟨c, _, hc, hf, rfl, rfl, fun _ _ => Cause.downcast?_eq_some, ?_,
      hu.bottom_of_capture hc⟩
    intro bottom c' messages hwraps hc'
    exact (FailureHandle.walk_shown hf).trans (hu.walk_of_wraps hwraps hc hc')
  · intro number h f number' h' f' held held' hf hf'
    exact hu.same_iff held held' hf hf'

/-- An engine with nothing to do. -/
def plainSetup : Setup Nat := { processor := { name := "plain" } }

/-- An error with one below it is captured and raised again twice; the failure in the failure is
taken out, and an equal error is captured for the same item. -/
def nestedMoves : List FailureMove :=
  [.raise 0 (.user "fetch failed" ["connection reset"]), .clone 0, .convert 1, .raiseAgain 3 2,
    .convert 3, .raiseAgain 5 4, .takeOut 5, .raise 0 (.user "fetch failed" ["connection reset"])]

/-- A failure in a failure in a failure shows just the two messages of the error at its bottom; the
one that was taken out of it is the one that was put in; and the equal error is another failure. -/
theorem failures_are_transparent_nested :
    ∃ u outer inner taken other,
      FailureUse.run { machine := .new plainSetup } nestedMoves = some u ∧
      u.handles.map (fun held => (held.1, held.2.failure?)) =
        [(0, some inner), (0, some inner), (0, some inner), (1, some taken), (1, some taken),
          (2, some outer), (1, some taken), (3, some other)] ∧
      Walk (.failure outer) ["fetch failed", "connection reset"] ∧
      taken.same inner = false ∧ other.same inner = false ∧ other.cause = inner.cause := by
  let inner : Failure := ⟨0, 0, .user "fetch failed" ["connection reset"]⟩
  let taken : Failure := ⟨3, 1, .execution inner.toError⟩
  let outer : Failure := ⟨5, 2, .execution taken.toError⟩
  let other : Failure := ⟨0, 3, .user "fetch failed" ["connection reset"]⟩
  have hstate : (FailureUse.run { machine := .new plainSetup } nestedMoves).map
      (fun u => (u.handles, u.captures)) =
        some ([(0, .failure inner), (0, .failure inner), (0, .error inner.toError),
            (1, .failure taken), (1, .error taken.toError), (2, .failure outer),
            (1, .error taken.toError), (3, .failure other)],
          [⟨0, inner.cause, none⟩, ⟨3, taken.cause, some 0⟩, ⟨5, outer.cause, some 1⟩,
            ⟨0, other.cause, none⟩]) := by decide +kernel
  obtain ⟨u, hrun, hu⟩ := Option.map_eq_some_iff.mp hstate
  obtain ⟨hhandles, hcaptures⟩ := Prod.mk.inj hu
  obtain ⟨hwalk, hheld, hsame, -⟩ := failures_are_transparent hrun
  have hinner : (0, .failure inner) ∈ u.handles := by rw [hhandles]; decide
  have htaken : (1, .failure taken) ∈ u.handles := by rw [hhandles]; decide
  have houter : (2, .failure outer) ∈ u.handles := by rw [hhandles]; decide
  have hother : (3, .failure other) ∈ u.handles := by rw [hhandles]; decide
  refine ⟨u, outer, inner, taken, other, hrun, by rw [hhandles]; rfl, ?_, ?_, ?_, rfl⟩
  · have hwraps : Wraps u.captures 2 0 := by
      rw [hcaptures]
      exact .again rfl rfl (.again rfl rfl .self)
    have hbottom : u.captures[0]? = some ⟨0, inner.cause, none⟩ := by rw [hcaptures]; rfl
    obtain ⟨_, _, -, -, -, -, -, hshown, -⟩ := hheld 2 (.failure outer) houter
    exact (hshown 0 _ _ hwraps hbottom).mpr ((hwalk 0 inner.cause _).2.mpr rfl)
  · have hiff := hsame 1 _ taken 0 _ inner htaken hinner rfl rfl
    exact Bool.eq_false_iff.mpr fun h => absurd (hiff.mp h) (by decide)
  · have hiff := hsame 3 _ other 0 _ inner hother hinner rfl rfl
    exact Bool.eq_false_iff.mpr fun h => absurd (hiff.mp h) (by decide)

end FailureUse

end WorkBundle
