import WorkBundle.Machine.Step

/-!
# What one step can do

`Machine.step` is a function, nested as the phases are; this module opens it once. A `Transition`
lists the ways in which an engine can change, one constructor for each, with what must hold before
and the state afterwards in the words of `WorkBundle.Machine.Step`. Everything that is proved
about all runs is proved by cases on it (`transition_of_step`), and no later proof unfolds `step`.

The relation comes in three layers, for the three parties: what a worker does by itself
(`WorkerStep`), what the backend does to its task (`TaskDrop`), and what the call in progress does
(`ProducerStep`). Calls, cancellation and the world around are the rest.

Processing code touches only a few fields of the engine; `act_touches` names them, so that a step of
code leaves everything that the engine itself decides on as it was.
-/

set_option autoImplicit false

namespace WorkBundle

variable {α : Type}

def Outcome.phase (number identity : Nat) : Outcome → WorkerPhase α
  | .returned => .leaving .returned
  | .failed cause => .offering ⟨number, identity, cause⟩ (.failed ⟨number, identity, cause⟩)
  | .panicked => .offering ⟨number, identity, .lost number⟩ .lost

def Progress.phase (number identity : Nat) : Progress α → WorkerPhase α
  | .going a => .working a
  | .over outcome => outcome.phase number identity

/-- The reply to a call that has run a hook. A panic of the hook is no answer: it goes on through
the call, which is why `Reply.panic` stands beside `Reply.answer`. -/
def Setup.hookReply (s : Setup α) (hook : Hook) : Outcome → Reply
  | .returned => .answer (.ok ())
  | .failed cause => .answer (.error (.hook s.processor.name hook.name cause))
  | .panicked => .panic

namespace Machine

/-! ## What processing code can touch -/

theorem write_eq (m : Machine α) (owner : Owner α) (a : Activity α) (steps : List (Delivery α)) :
    ∃ lock arrivals written emissions, (m.write owner a steps).1 =
      { m with
        lock := lock, arrivals := arrivals, written := written
        tally := { m.tally with emissions := emissions } } := by
  cases steps with
  | nil => cases owner <;> exact ⟨_, _, _, _, rfl⟩
  | cons d steps =>
    cases d with
    | crash => cases owner <;> exact ⟨_, _, _, _, rfl⟩
    | _ => exact ⟨_, _, _, _, rfl⟩

theorem requestEmission_eq (m : Machine α) (owner : Owner α) (a : Activity α)
    (e : Emission (Output α)) :
    ∃ lock emissions, (m.requestEmission owner a e).1 =
      { m with lock := lock, tally := { m.tally with emissions := emissions } } := by
  cases owner <;> exact ⟨_, _, rfl⟩

theorem perform_eq (m : Machine α) (owner : Owner α) (a : Activity α) (action : Action α) :
    ∃ scope lock supply emissions probe notes, (m.perform owner a action).1 =
      { m with
        scope := scope, lock := lock, supply := supply
        tally := { m.tally with emissions := emissions, probe := probe, notes := notes } } := by
  cases action with
  | emit call =>
    simp only [perform]
    split
    · obtain ⟨lock, emissions, h⟩ := m.requestEmission_eq owner a ‹_›
      exact ⟨_, _, _, _, _, _, h⟩
    · exact ⟨_, _, _, _, _, _, rfl⟩
  | report question named =>
    simp only [perform]
    split
    · exact ⟨_, _, _, _, _, _, rfl⟩
    · rename_i time _
      split
      · rename_i r scope _
        obtain ⟨lock, emissions, h⟩ :=
          requestEmission_eq { m with scope } owner a (.main (.reading r) time)
        exact ⟨_, _, _, _, _, _, h⟩
      · exact ⟨_, _, _, _, _, _, rfl⟩
  | permit =>
    cases owner with
    | hook => exact ⟨_, _, _, _, _, _, rfl⟩
    | worker =>
      simp only [perform]
      split <;> exact ⟨_, _, _, _, _, _, rfl⟩
  | _ => exact ⟨_, _, _, _, _, _, rfl⟩

/-- A step of code changes nothing but what code can touch: the shared scope, the permits it takes,
what has come out, and of the counts its emissions, its probe and its notes. -/
theorem act_touches {m m₁ : Machine α} {owner : Owner α} {a : Activity α} {p : Progress α}
    (h : m.act owner a = (m₁, p)) :
    ∃ scope lock supply arrivals written emissions probe notes, m₁ =
      { m with
        scope := scope, lock := lock, supply := supply, arrivals := arrivals, written := written
        tally := { m.tally with emissions := emissions, probe := probe, notes := notes } } := by
  have h₁ : m₁ = (m.act owner a).1 := by rw [h]
  rw [h₁]
  clear h h₁
  unfold act
  split
  · exact ⟨_, _, _, _, _, _, _, _, rfl⟩
  · exact ⟨_, _, _, _, _, _, _, _, rfl⟩
  · rename_i owner _ _ _ steps _
    obtain ⟨lock, arrivals, written, emissions, h⟩ :=
      m.write_eq owner { a with wait := .nothing } steps
    exact ⟨_, _, _, _, _, _, _, _, h⟩
  · unfold takePermit
    split <;> exact ⟨_, _, _, _, _, _, _, _, rfl⟩
  · split
    · exact ⟨_, _, _, _, _, _, _, _, rfl⟩
    · rename_i owner _ _ _ _ _ _ action rest _
      obtain ⟨scope, lock, supply, emissions, probe, notes, h⟩ :=
        m.perform_eq owner { a with script := rest, wait := .nothing } action
      exact ⟨_, _, _, _, _, _, _, _, h⟩

/-- What `act_touches` says, with the counts as one. Every frame fact about `Machine.act` in which
they play no part is read off here. -/
theorem act_eq {m m₁ : Machine α} {owner : Owner α} {a : Activity α} {p : Progress α}
    (h : m.act owner a = (m₁, p)) :
    ∃ scope lock supply arrivals written tally, m₁ =
      { m with
        scope := scope, lock := lock, supply := supply
        arrivals := arrivals, written := written, tally := tally } := by
  obtain ⟨_, _, _, _, _, _, _, _, heq⟩ := act_touches h
  exact ⟨_, _, _, _, _, _, heq⟩

theorem act_workers {m m₁ : Machine α} {owner : Owner α} {a : Activity α} {p : Progress α}
    (h : m.act owner a = (m₁, p)) : m₁.workers = m.workers := by
  obtain ⟨_, _, _, _, _, _, rfl⟩ := act_eq h
  rfl

/-! ## Workers -/

/-- What a worker does by itself, one constructor for each `WorkerPhase`. Proofs about workers split
on this rather than unfold `Machine.stepWorker`. -/
inductive WorkerStep (m : Machine α) (n : Nat) (w : Worker α) : Machine α → Prop
  | begin (phase : w.phase = .queued) (kept : m.isDropped n = false) :
      WorkerStep m n w
        ({ m with tally := { m.tally with bodies := m.tally.bodies.enter } }.setPhase n
          (.working { script := w.item.script }))
  | goOn {a a' : Activity α} {m₁ : Machine α} (phase : w.phase = .working a)
      (awake : m.awake n a.wait = true)
      (act : m.act (.worker n w.item) a = (m₁, .going a')) :
      WorkerStep m n w (m₁.setPhase n (.working a'))
  | finish {a : Activity α} {outcome : Outcome} {m₁ : Machine α} (phase : w.phase = .working a)
      (awake : m.awake n a.wait = true)
      (act : m.act (.worker n w.item) a = (m₁, .over outcome)) :
      WorkerStep m n w (m₁.workEnded n outcome)
  | offer {f : Failure} {e : Ending} (phase : w.phase = .offering f e) :
      WorkerStep m n w (m.offer n f e)
  | count {f : Failure} {e : Ending} (phase : w.phase = .counting f e) :
      WorkerStep m n w (m.countLate n f e)
  | leave {e : Ending} (phase : w.phase = .leaving e) :
      WorkerStep m n w ({ m with gate := m.gate.release 1 }.setPhase n (.closing e))
  | close {e : Ending} (phase : w.phase = .closing e) (kept : m.isLent n = false) :
      WorkerStep m n w (m.close n e)

/-- What becomes of a worker whose task the backend drops. One that had not begun leaves as
`unstarted` and makes no failure; one in the middle loses what its code held (`Machine.lose`). -/
inductive TaskDrop (m : Machine α) (n : Nat) (w : Worker α) : Machine α → Prop
  | queued (phase : w.phase = .queued) : TaskDrop m n w (m.setPhase n (.leaving .unstarted))
  | working {a : Activity α} (phase : w.phase = .working a) : TaskDrop m n w (m.lose n a)

theorem awake_of_not_suspended {m : Machine α} {n : Nat} {wait : Wait}
    (h : m.suspended n wait = false) : m.awake n wait = true := by
  simp only [suspended, Bool.or_eq_false_iff, Bool.not_eq_false'] at h
  exact h.2

theorem workerStep_of_stepWorker {m m' : Machine α} {n : Nat} (h : m.stepWorker n = some m') :
    ∃ w, m.workers[n]? = some w ∧ WorkerStep m n w m' := by
  unfold stepWorker at h
  cases hw : m.workers[n]? with
  | none => rw [hw] at h; exact absurd h (by simp)
  | some w =>
    refine ⟨w, rfl, ?_⟩
    rw [hw] at h
    dsimp only at h
    cases hp : w.phase with
    | queued =>
      rw [hp] at h
      dsimp only at h
      split at h
      · cases h
      · rename_i hd
        cases h
        exact .begin hp (by simpa using hd)
    | working a =>
      rw [hp] at h
      dsimp only at h
      by_cases hc : (if m.isLent n = true then m.suspended n a.wait else !m.awake n a.wait) = true
      · rw [if_pos hc] at h
        cases h
      · rw [if_neg hc] at h
        have hawake : m.awake n a.wait = true := by
          split at hc
          · exact awake_of_not_suspended (by simpa using hc)
          · simpa using hc
        split at h
        · rename_i hact
          cases h
          exact .goOn hp hawake hact
        · rename_i hact
          cases h
          exact .finish hp hawake hact
    | offering f e => rw [hp] at h; cases h; exact .offer hp
    | counting f e => rw [hp] at h; cases h; exact .count hp
    | leaving e => rw [hp] at h; cases h; exact .leave hp
    | closing e =>
      rw [hp] at h
      dsimp only at h
      split at h
      · cases h
      · rename_i hl
        cases h
        exact .close hp (by simpa using hl)
    | ended e => rw [hp] at h; cases h

theorem taskDrop_of_dropTask {m m' : Machine α} {n : Nat} (h : m.dropTask n = some m') :
    ∃ w, m.workers[n]? = some w ∧ TaskDrop m n w m' := by
  unfold dropTask at h
  cases hw : m.workers[n]? with
  | none => rw [hw] at h; exact absurd h (by simp)
  | some w =>
    refine ⟨w, rfl, ?_⟩
    rw [hw] at h
    dsimp only at h
    cases hp : w.phase with
    | queued => rw [hp] at h; cases h; exact .queued hp
    | working a => rw [hp] at h; cases h; exact .working hp
    | _ => rw [hp] at h; cases h

/-! ## The call in progress -/

/-- What the backend has decided about the task of an item. It is a function of the number alone, so
it may be named before the item is handed over. -/
def verdict (m : Machine α) (n : Nat) : Verdict := (m.setup.backend.receive n).verdict

/-- What the call in progress does, one constructor for each `Phase`. `keep`, `dropPolled` and
`dropQueued` are the ways in which the backend goes on with a task it was handed, and `answer`
forgets a task that was dropped and gives the word of the backend. -/
inductive ProducerStep (m : Machine α) : Machine α → Prop
  | startOn {a a' : Activity α} {m₁ : Machine α} (phase : m.producer = .starting a)
      (act : m.act (.hook .start) a = (m₁, .going a')) :
      ProducerStep m { m₁ with producer := .starting a' }
  | startEnd {a : Activity α} {outcome : Outcome} {m₁ : Machine α} (phase : m.producer = .starting a)
      (act : m.act (.hook .start) a = (m₁, .over outcome)) :
      ProducerStep m (m₁.startEnded outcome)
  | ask {item : WorkItem α} (phase : m.producer = .admitting item) :
      ProducerStep m (m.askTicket item)
  | check {item : WorkItem α} (phase : m.producer = .checking item) :
      ProducerStep m (m.check item)
  | hand {item : WorkItem α} (phase : m.producer = .handing item) :
      ProducerStep m (m.hand item)
  | keep {n : Nat} {w : Worker α} (phase : m.producer = .polling n)
      (worker : m.workers[n]? = some w) (verdict : m.verdict n = .run)
      (stopped : (∃ a, w.phase = .working a) ∨ ∃ e, w.phase = .closing e) :
      ProducerStep m (m.reply (.ok ()))
  | dropPolled {n : Nat} {w : Worker α} {a : Activity α} (phase : m.producer = .polling n)
      (worker : m.workers[n]? = some w) (verdict : m.verdict n ≠ .run)
      (working : w.phase = .working a) :
      ProducerStep m ({ m with producer := .dropping n }.lose n a)
  | dropQueued {n : Nat} {w : Worker α} (phase : m.producer = .dropping n)
      (worker : m.workers[n]? = some w) (queued : w.phase = .queued) :
      ProducerStep m (m.setPhase n (.leaving .unstarted))
  | answer {n : Nat} {w : Worker α} {e : Ending}
      (phase : m.producer = .dropping n ∨ m.producer = .polling n ∧ m.verdict n ≠ .run)
      (worker : m.workers[n]? = some w) (closing : w.phase = .closing e) :
      ProducerStep m ((m.setPhase n (.ended e)).verdictOf n)
  | refusalCaptured {f : Failure} (phase : m.producer = .refused f)
      (empty : m.cell.captured = none) :
      ProducerStep m
        ({ m with cell := { m.cell with captured := some f } }.reply (.error f.toError))
  | refusalLate {f g : Failure} (phase : m.producer = .refused f)
      (full : m.cell.captured = some g) : ProducerStep m { m with producer := .outdone f }
  | refusalCounted {f : Failure} (phase : m.producer = .outdone f) :
      ProducerStep m ({ m with cell := m.cell.countLoser }.reply (.error f.toError))
  | drain (phase : m.producer = .draining) : ProducerStep m m.askEverything
  | conclude (phase : m.producer = .drained) : ProducerStep m m.conclude
  | finishOn {a a' : Activity α} {m₁ : Machine α} (phase : m.producer = .finishing a)
      (act : m.act (.hook .finish) a = (m₁, .going a')) :
      ProducerStep m { m₁ with producer := .finishing a' }
  | finishEnd {a : Activity α} {outcome : Outcome} {m₁ : Machine α}
      (phase : m.producer = .finishing a)
      (act : m.act (.hook .finish) a = (m₁, .over outcome)) :
      ProducerStep m (m₁.finishEnded outcome)

theorem producerStep_of_pollEnded {m m' : Machine α} {n : Nat} (hp : m.producer = .polling n)
    (h : m.pollEnded n = some m') : ProducerStep m m' := by
  unfold pollEnded at h
  cases hw : m.workers[n]? with
  | none => rw [hw] at h; exact absurd h (by simp)
  | some w =>
    rw [hw] at h
    dsimp only at h
    split at h
    · rename_i v a hphase
      split at h
      · split at h
        · rename_i hv
          cases h
          exact .keep hp hw hv (Or.inl ⟨a, hphase⟩)
        · rename_i hv
          cases h
          exact .dropPolled hp hw (fun hrun => hv hrun) hphase
      · cases h
    · rename_i e hphase hv
      cases h
      exact .keep hp hw hv (Or.inr ⟨e, hphase⟩)
    · rename_i e v hphase hv
      cases h
      exact .answer (Or.inr ⟨hp, fun hrun => hv hrun⟩) hw hphase
    · cases h

theorem producerStep_of_dropEnded {m m' : Machine α} {n : Nat} (hp : m.producer = .dropping n)
    (h : m.dropEnded n = some m') : ProducerStep m m' := by
  unfold dropEnded at h
  cases hw : m.workers[n]? with
  | none => rw [hw] at h; exact absurd h (by simp)
  | some w =>
    rw [hw] at h
    dsimp only at h
    split at h
    · rename_i hphase
      simp only [dropTask, hw, hphase, Option.some.injEq] at h
      subst h
      exact .dropQueued hp hw hphase
    · rename_i e hphase
      cases h
      exact .answer (Or.inl hp) hw hphase
    · cases h

theorem producerStep_of_stepProducer {m m' : Machine α} (h : m.stepProducer = some m') :
    ProducerStep m m' := by
  unfold stepProducer at h
  cases hp : m.producer with
  | idle => rw [hp] at h; cases h
  | starting a =>
    rw [hp] at h
    dsimp only at h
    split at h
    · cases h
    · split at h
      all_goals cases h
      · exact .startOn hp ‹_›
      · exact .startEnd hp ‹_›
  | admitting item =>
    rw [hp] at h
    dsimp only at h
    split at h
    · cases h
      exact .ask hp
    · cases h
  | checking item => rw [hp] at h; cases h; exact .check hp
  | handing item => rw [hp] at h; cases h; exact .hand hp
  | polling n => rw [hp] at h; exact producerStep_of_pollEnded hp h
  | dropping n => rw [hp] at h; exact producerStep_of_dropEnded hp h
  | refused f =>
    rw [hp] at h
    dsimp only [FailureCell.offer] at h
    cases hc : m.cell.captured with
    | none => rw [hc] at h; cases h; exact .refusalCaptured hp hc
    | some g => rw [hc] at h; cases h; exact .refusalLate hp hc
  | outdone f => rw [hp] at h; cases h; exact .refusalCounted hp
  | draining =>
    rw [hp] at h
    dsimp only at h
    split at h
    · cases h
      exact .drain hp
    · cases h
  | drained => rw [hp] at h; cases h; exact .conclude hp
  | finishing a =>
    rw [hp] at h
    dsimp only at h
    split at h
    · cases h
    · split at h
      all_goals cases h
      · exact .finishOn hp ‹_›
      · exact .finishEnd hp ‹_›

/-! ## The parts of a step, case by case

The functions that a `ProducerStep` or a `WorkerStep` names, where they branch. What they write
down in the log or count is left open, since nothing the engine decides depends on it. -/

/-- Losing a task gives back what its code held and makes the failure that tells of the loss
(`Cause.lost`), which is then offered like any other. -/
theorem lose_eq (m : Machine α) (n : Nat) (a : Activity α) :
    ∃ lock supply tally, m.lose n a =
      { m with
        lock := lock, supply := supply, tally := tally, minted := m.minted + 1 }.setPhase n
        (.offering ⟨n, m.minted, .lost n⟩ .lost) := by
  unfold lose
  cases a.emitting with
  | none => cases a.wait <;> exact ⟨_, _, _, rfl⟩
  | some emitting => cases emitting <;> cases a.wait <;> exact ⟨_, _, _, rfl⟩

theorem workEnded_eq (m : Machine α) (n : Nat) (outcome : Outcome) :
    ∃ tally minted, (outcome = .returned → minted = m.minted) ∧
      m.workEnded n outcome =
        { m with tally := tally, minted := minted }.setPhase n (outcome.phase n m.minted) := by
  cases outcome with
  | returned => exact ⟨_, m.minted, fun _ => rfl, rfl⟩
  | failed | panicked => exact ⟨_, _, nofun, rfl⟩

theorem finish_workers {m m₁ : Machine α} {owner : Owner α} {a : Activity α} {outcome : Outcome}
    (h : m.act owner a = (m₁, .over outcome)) (n : Nat) :
    (m₁.workEnded n outcome).workers = (m.setPhase n (outcome.phase n m₁.minted)).workers := by
  obtain ⟨tally, minted, -, heq⟩ := m₁.workEnded_eq n outcome
  rw [heq]
  obtain ⟨_, _, _, _, _, _, rfl⟩ := act_eq h
  rfl

theorem close_eq (m : Machine α) (n : Nat) (e : Ending) :
    ∃ tally log,
      m.close n e = { m.setPhase n (.ended e) with tally := tally, log := m.log ++ log } := by
  cases e with
  | failed f =>
    unfold close
    dsimp only
    split
    · exact ⟨_, _, rfl⟩
    · exact ⟨_, [], by rw [List.append_nil]; rfl⟩
  | returned => exact ⟨_, [], by rw [List.append_nil]; rfl⟩
  | lost => exact ⟨m.tally, [], by rw [List.append_nil]; rfl⟩
  | unstarted => exact ⟨m.tally, [], by rw [List.append_nil]; rfl⟩

theorem forsakeHook_eq (m : Machine α) (a : Activity α) :
    ∃ tally, m.forsakeHook a = { m with tally := tally } := by
  unfold forsakeHook
  split
  · exact ⟨_, rfl⟩
  · exact ⟨m.tally, rfl⟩

/-- The engine with one more item, which has got its number. It has a worker from here on, also if
the backend refuses it later. -/
def enlist (m : Machine α) (item : WorkItem α) : Machine α :=
  { m.report (.workItemDispatched m.dispatched m.gate.outstanding) bundleSpans with
    dispatched := m.dispatched + 1
    workers := m.workers ++ [Worker.mk item .queued]
    tally := { m.tally with submitted := m.tally.submitted + 1 } }

/-- An item that is handed over is run on the spot, left to be run, or dropped, just as the
`Reception` says. -/
theorem hand_cases (m : Machine α) (item : WorkItem α) :
    ((m.setup.backend.receive m.dispatched).polled = true ∧
      m.hand item = { m.enlist item with producer := .polling m.dispatched }) ∨
    (m.verdict m.dispatched = .run ∧ m.hand item = (m.enlist item).reply (.ok ())) ∨
    ((m.setup.backend.receive m.dispatched).polled = false ∧ m.verdict m.dispatched ≠ .run ∧
      m.hand item = { m.enlist item with producer := .dropping m.dispatched }) := by
  unfold verdict hand
  dsimp only [report]
  cases m.setup.backend.receive m.dispatched with
  | mk polled verdict =>
    cases polled with
    | true => exact Or.inl ⟨rfl, rfl⟩
    | false =>
      cases verdict with
      | run => exact Or.inr (Or.inl ⟨rfl, rfl⟩)
      | discard => exact Or.inr (Or.inr ⟨rfl, by simp, rfl⟩)
      | refuse => exact Or.inr (Or.inr ⟨rfl, by simp, rfl⟩)

@[simp] theorem length_hand (m : Machine α) (item : WorkItem α) :
    (m.hand item).workers.length = m.workers.length + 1 := by
  rcases m.hand_cases item with ⟨-, heq⟩ | ⟨-, heq⟩ | ⟨-, -, heq⟩
  all_goals
    rw [heq]
    exact List.length_append

def refusal (m : Machine α) (n : Nat) : Failure :=
  ⟨n, m.minted, .execution (.backend n m.setup.backend.reason)⟩

/-- The word of the backend on an item it does not hold any more. A refusal is a failure of its own
(`Machine.refusal`), which has yet to be offered to the cell. -/
theorem verdictOf_cases (m : Machine α) (n : Nat) :
    (m.verdict n = .refuse ∧
      m.verdictOf n = { m with minted := m.minted + 1, producer := .refused (m.refusal n) }) ∨
    (m.verdict n ≠ .refuse ∧ m.verdictOf n = m.reply (.ok ())) := by
  unfold verdictOf verdict
  cases (m.setup.backend.receive n).verdict with
  | refuse => exact Or.inl ⟨rfl, rfl⟩
  | run => exact Or.inr ⟨by simp, rfl⟩
  | discard => exact Or.inr ⟨by simp, rfl⟩

/-- A failure that is offered is captured if none was before, and otherwise waits to be counted.
Between the two lies a step, in which others may look at the cell. -/
theorem offer_cases (m : Machine α) (n : Nat) (f : Failure) (e : Ending) :
    (m.cell.captured = none ∧
      m.offer n f e =
        ({ m with cell := { m.cell with captured := some f } }.report
          (.workItemFailed m.setup.processor.name n f.message) workerSpans).setPhase n (.leaving e)) ∨
    (∃ g, m.cell.captured = some g ∧ m.offer n f e = m.setPhase n (.counting f e)) := by
  unfold offer FailureCell.offer
  cases hc : m.cell.captured with
  | none => exact Or.inl ⟨rfl, rfl⟩
  | some g => exact Or.inr ⟨g, rfl, rfl⟩

/-! ## The engine -/

end Machine

def Move.call? : Move α → Option (Call α)
  | .call c => some c
  | _ => none

def Move.isWorld : Move α → Bool
  | .unlatch _ | .supply _ | .closeSupply | .clock _ => true
  | _ => false

theorem Move.call?_of_isWorld {move : Move α} (h : move.isWorld = true) : move.call? = none := by
  cases move <;> first | rfl | cases h

/-- What is wrong with a call at this stage of the bundle, if anything is. It is the whole table:
`Machine.beginCall` refuses these calls and accepts all others. -/
def Call.violation? : Call α → Stage → Option LifecycleViolation
  | .start, .created => none
  | .start, .started => some .startWhileRunning
  | .start, .finished => some .startAfterFinish
  | .submit _, .created => some .submitBeforeStart
  | .submit _, .started => none
  | .submit _, .finished => some .submitAfterFinish
  | .finish, .created => some .finishBeforeStart
  | .finish, .started => none
  | .finish, .finished => some .finishAfterFinish

namespace Machine

/-- A way in which an engine can change: a call begins or is refused, the call in progress or a
worker makes a step, a task is dropped, the call is abandoned, the token is cancelled, or the world
around moves. `transition_of_step` says that there are no others, so an invariant needs one case for
each. -/
inductive Transition (m : Machine α) : Move α → Machine α → Prop
  | violation {c : Call α} {v : LifecycleViolation} (idle : m.producer = .idle)
      (wrong : c.violation? m.stage = some v) : Transition m (.call c) (m.outOfOrder v)
  | start (idle : m.producer = .idle) (stage : m.stage = .created) :
      Transition m (.call .start)
        { m with producer := .starting { script := m.setup.processor.startHook } }
  | submit {item : WorkItem α} (idle : m.producer = .idle) (stage : m.stage = .started) :
      Transition m (.call (.submit item)) { m with producer := .admitting item }
  | finish (idle : m.producer = .idle) (stage : m.stage = .started) :
      Transition m (.call .finish) { m with stage := .finished, producer := .draining }
  | abandonStart {a : Activity α} (phase : m.producer = .starting a) :
      Transition m .abandon { m.forsakeHook a with producer := .idle }
  | abandonWait (phase : (∃ item, m.producer = .admitting item) ∨ m.producer = .draining) :
      Transition m .abandon { m with gate := m.gate.leave (), producer := .idle }
  | abandonFinish {a : Activity α} (phase : m.producer = .finishing a) :
      Transition m .abandon { (m.forsakeHook a).reopen with producer := .idle }
  | producer {m' : Machine α} (step : ProducerStep m m') : Transition m .producer m'
  | worker {n : Nat} {w : Worker α} {m' : Machine α} (worker : m.workers[n]? = some w)
      (step : WorkerStep m n w m') : Transition m (.worker n) m'
  | drop {n : Nat} {w : Worker α} {m' : Machine α} (worker : m.workers[n]? = some w)
      (kept : m.isLent n = false) (step : TaskDrop m n w m') : Transition m (.drop n) m'
  | cancel : Transition m .cancel { m with gate := m.gate.cancel }
  | world {move : Move α} (world : move.isWorld = true) (now : Nat) (latches : List String)
      (supply : Permits Nat) (closed : Bool)
      (kept : closed = m.supplyClosed ∨ move = .closeSupply) : Transition m move
        { m with now := now, openLatches := latches, supply := supply, supplyClosed := closed }

theorem step_call {m : Machine α} (hidle : m.producer = .idle) (c : Call α) :
    m.step (.call c) = some (m.beginCall c) := by
  simp only [step, isBusy, hidle]
  rfl

theorem transition_of_beginCall {m : Machine α} (c : Call α) (hidle : m.producer = .idle) :
    Transition m (.call c) (m.beginCall c) := by
  have hwrong {v : LifecycleViolation} (hv : c.violation? m.stage = some v) :
      Transition m (.call c) (m.outOfOrder v) := .violation hidle hv
  cases c with
  | start =>
    dsimp only [beginCall]
    split
    · exact .start hidle ‹_›
    all_goals exact hwrong (by simp [*, Call.violation?])
  | submit item =>
    dsimp only [beginCall]
    split
    · exact hwrong (by simp [*, Call.violation?])
    · exact .submit hidle ‹_›
    · exact hwrong (by simp [*, Call.violation?])
  | finish =>
    dsimp only [beginCall]
    split
    · exact hwrong (by simp [*, Call.violation?])
    · exact .finish hidle ‹_›
    · exact hwrong (by simp [*, Call.violation?])

theorem transition_of_abandon {m m' : Machine α} (h : m.abandon = some m') :
    Transition m .abandon m' := by
  unfold abandon at h
  split at h
  · cases h; exact .abandonStart ‹_›
  · cases h; exact .abandonWait (Or.inl ⟨_, ‹_›⟩)
  · cases h; exact .abandonWait (Or.inr ‹_›)
  · cases h; exact .abandonFinish ‹_›
  · cases h

theorem idle_of_not_busy {m : Machine α} (h : m.isBusy = false) : m.producer = .idle := by
  unfold isBusy at h
  split at h
  · assumption
  · cases h

theorem transition_of_step {m m' : Machine α} {move : Move α} (h : m.step move = some m') :
    Transition m move m' := by
  cases move with
  | call c =>
    simp only [step] at h
    split at h
    · cases h
    · rename_i hb
      cases h
      exact transition_of_beginCall c (idle_of_not_busy (by simpa using hb))
  | abandon => exact transition_of_abandon h
  | producer => exact .producer (producerStep_of_stepProducer h)
  | worker n =>
    obtain ⟨w, hw, hs⟩ := workerStep_of_stepWorker h
    exact .worker hw hs
  | drop n =>
    simp only [step] at h
    split at h
    · cases h
    · rename_i hl
      obtain ⟨w, hw, hs⟩ := taskDrop_of_dropTask h
      exact .drop hw (by simpa using hl) hs
  | cancel => cases h; exact .cancel
  | unlatch name => cases h; exact .world rfl m.now _ m.supply m.supplyClosed (Or.inl rfl)
  | supply k => cases h; exact .world rfl m.now m.openLatches _ m.supplyClosed (Or.inl rfl)
  | closeSupply => cases h; exact .world rfl m.now m.openLatches m.supply _ (Or.inr rfl)
  | clock time =>
    simp only [step] at h
    split at h
    · cases h
      exact .world rfl time m.openLatches m.supply m.supplyClosed (Or.inl rfl)
    · cases h

end Machine

end WorkBundle
