import WorkBundle.Proofs.Effects

/-!
# A bundle as a plain loop

What a bundle comes to when its items are handled one at a time, by a loop without workers, tickets
or calls: `Setup.sequential` runs the start hook and stops if it fails, runs the items in their
order and stops at the first that fails, and runs the finish hook if none did. Each piece of code is
run to its end by `execute`, in the scope that the one before has left.

In the middle of a piece of code the rest of the loop is its effect that is ahead, and then whatever
follows (`Effect.andThen`); a step of the code carries out the first part of that
(`CarriesOut.andThen`).
-/

set_option autoImplicit false

namespace WorkBundle

variable {α : Type}

/-- What a bundle has come to when it is over, which is what `sequential` computes and an engine can
be compared with. -/
structure Summary (α : Type) where
  /-- What the sink has recorded. -/
  records : List (Emission (Output α)) := []
  scope : Scope
  /-- How many items were processed; they are the first ones. -/
  processed : Nat
  reply : Reply

def Summary.after (out : List (Emission (Output α))) (s : Summary α) : Summary α :=
  { s with records := out ++ s.records }

@[simp] theorem Summary.after_nil (s : Summary α) : s.after [] = s := rfl

theorem Summary.after_after (out out' : List (Emission (Output α))) (s : Summary α) :
    (s.after out').after out = s.after (out ++ out') := by
  simp [after]

/-- Code is run in this scope, and then what follows from its outcome. Loops are put together with
this, so that each piece of code occurs as its `Effect`. -/
def Effect.andThen (e : Effect α) (scope : Scope) (next : Outcome → Scope → Summary α) :
    Summary α :=
  (next e.outcome (scope.useAll e.uses)).after e.records

@[simp] theorem Effect.andThen_over (outcome : Outcome) (scope : Scope)
    (next : Outcome → Scope → Summary α) :
    ({ outcome } : Effect α).andThen scope next = next outcome scope := rfl

theorem Effect.andThen_after (e : Effect α) (out : List (Emission (Output α))) (us : List Use)
    (scope : Scope) (next : Outcome → Scope → Summary α) :
    (e.after out us).andThen scope next = (e.andThen (scope.useAll us) next).after out := by
  simp [andThen, after, Summary.after]

def Outcome.failure? (number identity : Nat) : Outcome → Option Failure
  | .returned => none
  | .failed cause => some ⟨number, identity, cause⟩
  | .panicked => some ⟨number, identity, .lost number⟩

/-- After the code of the item with the number `n`: the loop goes on, or it stops at the failure of
the item. That is the first one that there is, so it has the first identity. -/
def orStop (n : Nat) (outcome : Outcome) (scope : Scope) (next : Scope → Summary α) : Summary α :=
  match outcome.failure? n 0 with
  | none => next scope
  | some f => { scope, processed := n + 1, reply := .answer (.error f.toError) }

namespace Setup

/-- What follows the finish hook of a bundle in which `n` items were processed. -/
def finished (s : Setup α) (n : Nat) (outcome : Outcome) (scope : Scope) : Summary α :=
  { scope, processed := n, reply := s.hookReply .finish outcome }

/-- The rest of the loop, when `n` items were processed and none has failed. -/
def serve (s : Setup α) (n : Nat) (scope : Scope) : List (WorkItem α) → Summary α
  | [] => (execute s.intake none scope s.processor.finishHook).andThen scope (s.finished n)
  | item :: items =>
    (execute s.intake (some item.toElement) scope item.script).andThen scope fun outcome scope =>
      orStop n outcome scope fun scope => s.serve (n + 1) scope items

def served (s : Setup α) (n : Nat) (items : List (WorkItem α)) (outcome : Outcome) (scope : Scope) :
    Summary α :=
  orStop n outcome scope fun scope => s.serve (n + 1) scope items

theorem serve_cons (s : Setup α) (n : Nat) (scope : Scope) (item : WorkItem α)
    (items : List (WorkItem α)) :
    s.serve n scope (item :: items) =
      (execute s.intake (some item.toElement) scope item.script).andThen scope
        (s.served n items) := rfl

def started (s : Setup α) (items : List (WorkItem α)) (outcome : Outcome) (scope : Scope) :
    Summary α :=
  match outcome with
  | .returned => s.serve 0 scope items
  | _ => { scope, processed := 0, reply := s.hookReply .start outcome }

/-- A whole bundle as a loop: the start hook, one item after the other, the finish hook. No gate,
cell or worker occurs in it. -/
def sequential (s : Setup α) (scope : Scope) (items : List (WorkItem α)) : Summary α :=
  (execute s.intake none scope s.processor.startHook).andThen scope (s.started items)

end Setup

namespace Machine

/-- A step of code carries out the first part of the code and what follows it. This is the one lemma
by which an `Effect` as a whole is met in the middle of a run. -/
theorem CarriesOut.andThen {m m₁ : Machine α} {owner : Owner α} {a : Activity α} {p : Progress α}
    (h : CarriesOut m m₁ owner a p) (next : Outcome → Scope → Summary α) :
    ∃ out, m₁.output = m.output ++ out ∧
      (a.effect m.setup.intake owner.element? m.scope).andThen m.scope next =
        ((p.effect m.setup.intake owner.element? m₁.scope).andThen m₁.scope next).after out := by
  obtain ⟨out, us, leaves, heffect⟩ := h
  exact ⟨out, leaves.output, by rw [heffect, Effect.andThen_after, ← leaves.scope]⟩

end Machine

end WorkBundle
