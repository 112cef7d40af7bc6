import WorkBundle.Proofs.Tickets

/-!
# The side of the caller

Stage, gate, call in progress, replies and log of an engine are the side of its caller. Code does
not look at them, and a worker looks at no more of them than at whether the call in progress holds
its task; all that a worker does there is to give its ticket back and to write to the log. So two
engines that agree on everything else make the same step when a worker moves, a task is dropped, or
the world around moves (`Machine.step_withCalls`).

A call that asks nothing of the gate does not see whether the token is cancelled. As long as nobody
calls, a cancelled engine therefore goes step by step with the same engine uncancelled
(`Machine.run_cancel`).
-/

set_option autoImplicit false

namespace WorkBundle

variable {α : Type}

namespace Machine

variable {m m' m₁ o : Machine α} {move : Move α} {n : Nat}

/-- The engine `m` with the side of the caller taken from `o`: stage, gate, producer, replies and
log. Workers read none of it except whether a call holds their task, which is what
`stepWorker_withCalls` has to assume. -/
def withCalls (m o : Machine α) : Machine α :=
  { m with
    stage := o.stage, gate := o.gate, producer := o.producer
    replies := o.replies, log := o.log }

/-! ## Code -/

theorem requestEmission_withCalls (m o : Machine α) (owner : Owner α) (a : Activity α)
    (e : Emission (Output α)) :
    (m.withCalls o).requestEmission owner a e =
      ((m.requestEmission owner a e).1.withCalls o, (m.requestEmission owner a e).2) := by
  cases owner <;> rfl

theorem write_withCalls (m o : Machine α) (owner : Owner α) (a : Activity α)
    (steps : List (Delivery α)) :
    (m.withCalls o).write owner a steps =
      ((m.write owner a steps).1.withCalls o, (m.write owner a steps).2) := by
  cases steps with
  | nil => cases owner <;> rfl
  | cons d steps =>
    cases d with
    | crash => cases owner <;> rfl
    | _ => rfl

theorem perform_withCalls (m o : Machine α) (owner : Owner α) (a : Activity α)
    (action : Action α) :
    (m.withCalls o).perform owner a action =
      ((m.perform owner a action).1.withCalls o, (m.perform owner a action).2) := by
  cases action with
  | emit call =>
    simp only [perform]
    split
    · exact requestEmission_withCalls m o owner a _
    · rfl
  | report question named =>
    simp only [perform]
    split
    · rfl
    · have hscope : (m.withCalls o).scope = m.scope := rfl
      rw [hscope]
      split
      · rename_i scope _
        exact requestEmission_withCalls { m with scope := scope } o owner a _
      · rfl
  | permit =>
    cases owner with
    | hook => rfl
    | worker =>
      have hclosed : (m.withCalls o).supplyClosed = m.supplyClosed := rfl
      simp only [perform, hclosed]
      split <;> rfl
  | _ => rfl

theorem act_withCalls (m o : Machine α) (owner : Owner α) (a : Activity α) :
    (m.withCalls o).act owner a = ((m.act owner a).1.withCalls o, (m.act owner a).2) := by
  unfold act
  split
  · rfl
  · rfl
  · exact write_withCalls m o _ _ _
  · have hclosed : (m.withCalls o).supplyClosed = m.supplyClosed := rfl
    simp only [takePermit, hclosed]
    split <;> rfl
  · split
    · rfl
    · exact perform_withCalls m o _ _ _

/-! ## Workers -/

/-- What a step aside leaves on the side of the caller, in two engines at once. A ticket may come
back to both gates and the same is logged in both; otherwise `m` and `o` are left alone. -/
structure Aside (m m' o o' : Machine α) : Prop where
  stage : m'.stage = m.stage ∧ o'.stage = o.stage
  producer : m'.producer = m.producer ∧ o'.producer = o.producer
  replies : m'.replies = m.replies ∧ o'.replies = o.replies
  gate : m'.gate = m.gate ∧ o'.gate = o.gate ∨
    m'.gate = m.gate.release 1 ∧ o'.gate = o.gate.release 1
  log : ∃ new, m'.log = m.log ++ new ∧ o'.log = o.log ++ new

theorem Aside.of_eq (hstage : m'.stage = m.stage) (hproducer : m'.producer = m.producer)
    (hreplies : m'.replies = m.replies) (hgate : m'.gate = m.gate) (hlog : m'.log = m.log) :
    Aside m m' o o where
  stage := ⟨hstage, rfl⟩
  producer := ⟨hproducer, rfl⟩
  replies := ⟨hreplies, rfl⟩
  gate := Or.inl ⟨hgate, rfl⟩
  log := ⟨[], by rw [hlog, List.append_nil], (List.append_nil _).symm⟩

theorem lose_withCalls (m o : Machine α) (n : Nat) (a : Activity α) :
    (m.withCalls o).lose n a = (m.lose n a).withCalls o := by
  unfold lose
  cases a.emitting with
  | none => cases a.wait <;> rfl
  | some e => cases e <;> cases a.wait <;> rfl

theorem workEnded_withCalls (m o : Machine α) (n : Nat) (outcome : Outcome) :
    (m.withCalls o).workEnded n outcome = (m.workEnded n outcome).withCalls o := by
  cases outcome <;> rfl

theorem offer_withCalls (m o : Machine α) (n : Nat) (f : Failure) (e : Ending) :
    ∃ o', (m.withCalls o).offer n f e = (m.offer n f e).withCalls o' ∧
      Aside m (m.offer n f e) o o' := by
  rcases m.offer_cases n f e with ⟨hempty, heq⟩ | ⟨g, hfull, heq⟩
  · rcases (m.withCalls o).offer_cases n f e with ⟨-, heq'⟩ | ⟨g, hfull, -⟩
    · rw [heq, heq']
      exact ⟨o.report (.workItemFailed m.setup.processor.name n f.message) workerSpans, rfl,
        ⟨rfl, rfl⟩, ⟨rfl, rfl⟩, ⟨rfl, rfl⟩, Or.inl ⟨rfl, rfl⟩, _, rfl, rfl⟩
    · rw [show (m.withCalls o).cell = m.cell from rfl, hempty] at hfull
      cases hfull
  · rcases (m.withCalls o).offer_cases n f e with ⟨hempty, -⟩ | ⟨_, -, heq'⟩
    · rw [show (m.withCalls o).cell = m.cell from rfl, hfull] at hempty
      cases hempty
    · rw [heq, heq']
      exact ⟨o, rfl, .of_eq rfl rfl rfl rfl rfl⟩

theorem close_withCalls (m o : Machine α) (n : Nat) (e : Ending) :
    ∃ o', (m.withCalls o).close n e = (m.close n e).withCalls o' ∧
      Aside m (m.close n e) o o' := by
  cases e with
  | failed f =>
    simp only [close]
    have hbackend : ((m.withCalls o).setPhase n (.ended (.failed f))).setup.backend.reportsAs =
        (m.setPhase n (.ended (.failed f))).setup.backend.reportsAs := rfl
    rw [hbackend]
    split
    · exact ⟨o.report _ [], rfl, ⟨rfl, rfl⟩, ⟨rfl, rfl⟩, ⟨rfl, rfl⟩, Or.inl ⟨rfl, rfl⟩, _, rfl, rfl⟩
    · exact ⟨o, rfl, .of_eq rfl rfl rfl rfl rfl⟩
  | _ => exact ⟨o, rfl, .of_eq rfl rfl rfl rfl rfl⟩

/-- The step of a worker in one engine is its step in the other, if the calls in progress hold its
task in both of them or in none. The condition cannot be dropped: a backend that runs tasks on the
caller's stack makes a worker wait for the call. -/
theorem stepWorker_withCalls (hlent : (m.withCalls o).isLent n = m.isLent n)
    (hdropped : (m.withCalls o).isDropped n = m.isDropped n) (h : m.stepWorker n = some m') :
    ∃ o', (m.withCalls o).stepWorker n = some (m'.withCalls o') ∧ Aside m m' o o' := by
  have hworkers : (m.withCalls o).workers = m.workers := rfl
  unfold stepWorker at h ⊢
  rw [hworkers, hlent, hdropped]
  cases hw : m.workers[n]? with
  | none =>
    rw [hw] at h
    cases h
  | some w =>
    rw [hw] at h
    dsimp only at h ⊢
    cases hphase : w.phase with
    | queued =>
      simp only [hphase] at h ⊢
      split at h
      · cases h
      · cases h
        rw [if_neg ‹_›]
        exact ⟨o, rfl, .of_eq rfl rfl rfl rfl rfl⟩
    | working a =>
      simp only [hphase] at h ⊢
      -- What code waits for is not on the side of the caller.
      have hsuspended : (m.withCalls o).suspended n a.wait = m.suspended n a.wait := rfl
      have hawake : (m.withCalls o).awake n a.wait = m.awake n a.wait := rfl
      rw [hsuspended, hawake, act_withCalls]
      generalize (if m.isLent n then m.suspended n a.wait else !m.awake n a.wait) = waits at h ⊢
      cases waits with
      | true => cases h
      | false =>
        generalize hact : m.act (.worker n w.item) a = acted at h ⊢
        obtain ⟨m₁, p⟩ := acted
        obtain ⟨_, _, _, _, _, _, hm₁⟩ := act_eq hact
        cases p with
        | going a' =>
          cases h
          rw [hm₁]
          exact ⟨o, rfl, .of_eq rfl rfl rfl rfl rfl⟩
        | «over» outcome =>
          cases h
          refine ⟨o, congrArg some (workEnded_withCalls m₁ o n outcome), ?_⟩
          obtain ⟨_, _, -, hended⟩ := m₁.workEnded_eq n outcome
          rw [hended, hm₁]
          exact .of_eq rfl rfl rfl rfl rfl
    | offering f e =>
      simp only [hphase] at h ⊢
      cases h
      obtain ⟨o', heq, haside⟩ := offer_withCalls m o n f e
      exact ⟨o', congrArg some heq, haside⟩
    | counting f e =>
      simp only [hphase] at h ⊢
      cases h
      exact ⟨o.report (.interleavedFailureDropped m.setup.processor.name n f.message) workerSpans,
        rfl, ⟨rfl, rfl⟩, ⟨rfl, rfl⟩, ⟨rfl, rfl⟩, Or.inl ⟨rfl, rfl⟩, _, rfl, rfl⟩
    -- The one thing that a worker does at the gate.
    | leaving e =>
      simp only [hphase] at h ⊢
      cases h
      exact ⟨{ o with gate := o.gate.release 1 }, rfl, ⟨rfl, rfl⟩, ⟨rfl, rfl⟩, ⟨rfl, rfl⟩,
        Or.inr ⟨rfl, rfl⟩, [], (List.append_nil _).symm, (List.append_nil _).symm⟩
    | closing e =>
      simp only [hphase] at h ⊢
      split at h
      · cases h
      · cases h
        rw [if_neg ‹_›]
        obtain ⟨o', heq, haside⟩ := close_withCalls m o n e
        exact ⟨o', congrArg some heq, haside⟩
    | ended e =>
      simp only [hphase] at h
      cases h

theorem dropTask_withCalls (h : m.dropTask n = some m') :
    (m.withCalls o).dropTask n = some (m'.withCalls o) ∧ Aside m m' o o := by
  have hworkers : (m.withCalls o).workers = m.workers := rfl
  unfold dropTask at h ⊢
  rw [hworkers]
  cases hw : m.workers[n]? with
  | none =>
    rw [hw] at h
    cases h
  | some w =>
    rw [hw] at h
    dsimp only at h ⊢
    cases hphase : w.phase with
    | queued =>
      simp only [hphase] at h ⊢
      cases h
      exact ⟨rfl, .of_eq rfl rfl rfl rfl rfl⟩
    | working a =>
      simp only [hphase] at h ⊢
      cases h
      refine ⟨congrArg some (lose_withCalls m o n a), ?_⟩
      obtain ⟨_, _, _, heq⟩ := m.lose_eq n a
      rw [heq]
      exact .of_eq rfl rfl rfl rfl rfl
    | _ =>
      simp only [hphase] at h
      cases h

end Machine

/-- A move that is not one of the caller: of a `worker`, of the backend with a task it keeps, or of
the world around. -/
def Move.isAside : Move α → Bool
  | .worker _ | .drop _ => true
  | move => move.isWorld

namespace Machine

variable {m m' m₁ o : Machine α} {move : Move α} {n : Nat}

/-- The same for any move with `isAside`. `Parallel` follows two engines by this lemma once their
callers have been told different things. -/
theorem step_withCalls (hmove : move.isAside = true)
    (hlent : ∀ n, (m.withCalls o).isLent n = m.isLent n)
    (hdropped : ∀ n, (m.withCalls o).isDropped n = m.isDropped n) (h : m.step move = some m') :
    ∃ o', (m.withCalls o).step move = some (m'.withCalls o') ∧ Aside m m' o o' := by
  cases move with
  | worker n => exact stepWorker_withCalls (hlent n) (hdropped n) h
  | drop n =>
    simp only [step] at h ⊢
    rw [hlent]
    split at h
    · cases h
    · rw [if_neg ‹_›]
      exact ⟨o, dropTask_withCalls h⟩
  | unlatch | supply | closeSupply =>
    cases h
    exact ⟨o, rfl, .of_eq rfl rfl rfl rfl rfl⟩
  | clock time =>
    simp only [step] at h ⊢
    split at h
    · cases h
      have hnow : (m.withCalls o).now ≤ time := by assumption
      rw [if_pos hnow]
      exact ⟨o, rfl, .of_eq rfl rfl rfl rfl rfl⟩
    · cases h
  | call | abandon | producer | cancel => cases hmove

/-! ## A token that nobody looks at -/

/-- The engine with its token cancelled, and nothing else changed: `stepProducer_cancel` and
`step_cancel` say that nobody but a call that asks the gate can tell. -/
def cancel (m : Machine α) : Machine α := { m with gate := m.gate.cancel }

theorem Aside.cancel {o' : Machine α} (h : Aside m m' m.cancel o') :
    m'.withCalls o' = m'.cancel := by
  obtain ⟨new, hlog, hlog'⟩ := h.log
  have hgate : o'.gate = m'.gate.cancel := by
    rcases h.gate with ⟨hg, hg'⟩ | ⟨hg, hg'⟩
    all_goals
      rw [hg, hg']
      rfl
  rw [withCalls, h.stage.2, h.producer.2, h.replies.2, hgate, hlog']
  simp only [Machine.cancel, ← h.stage.1, ← h.producer.1, ← h.replies.1, ← hlog]

theorem step_cancel_of_aside (hmove : move.isAside = true) :
    m.cancel.step move = (m.step move).map cancel := by
  have hforth {m m' : Machine α} (h : m.step move = some m') :
      m.cancel.step move = some m'.cancel := by
    obtain ⟨o', hstep, haside⟩ :=
      step_withCalls (m := m) (o := m.cancel) hmove (fun _ => rfl) (fun _ => rfl) h
    rw [← haside.cancel]
    exact hstep
  cases hstep : m.step move with
  | some m' => exact hforth hstep
  | none =>
    cases hstep' : m.cancel.step move with
    | none => rfl
    | some m' =>
      -- What the cancelled engine can do the other can do as well.
      obtain ⟨_, hback, -⟩ :=
        step_withCalls (m := m.cancel) (o := m) hmove (fun _ => rfl) (fun _ => rfl) hstep'
      rw [show m.cancel.withCalls m = m from rfl, hstep] at hback
      cases hback

theorem act_cancel (m : Machine α) (owner : Owner α) (a : Activity α) :
    m.cancel.act owner a = ((m.act owner a).1.cancel, (m.act owner a).2) := by
  rcases hact : m.act owner a with ⟨m₁, p⟩
  have heq := act_withCalls m m.cancel owner a
  rw [hact] at heq
  obtain ⟨_, _, _, _, _, _, rfl⟩ := act_eq hact
  exact heq

theorem hand_cancel (m : Machine α) (item : WorkItem α) :
    m.cancel.hand item = (m.hand item).cancel := by
  unfold hand cancel
  dsimp only [report]
  generalize m.setup.backend.receive m.dispatched = reception
  obtain ⟨polled, verdict⟩ := reception
  cases polled <;> cases verdict <;> rfl

theorem verdictOf_cancel (m : Machine α) (n : Nat) :
    m.cancel.verdictOf n = (m.verdictOf n).cancel := by
  unfold verdictOf cancel
  dsimp only
  split <;> rfl

theorem check_cancel (m : Machine α) (item : WorkItem α) :
    m.cancel.check item = (m.check item).cancel := by
  unfold check cancel
  dsimp only
  split <;> rfl

theorem conclude_cancel (m : Machine α) : m.cancel.conclude = m.conclude.cancel := by
  unfold conclude cancel
  dsimp only
  split <;> rfl

theorem lose_cancel (m : Machine α) (n : Nat) (a : Activity α) :
    m.cancel.lose n a = (m.lose n a).cancel := by
  have heq := lose_withCalls m m.cancel n a
  obtain ⟨_, _, _, hlose⟩ := m.lose_eq n a
  rw [hlose] at heq ⊢
  exact heq

theorem pollEnded_cancel (m : Machine α) (n : Nat) :
    m.cancel.pollEnded n = (m.pollEnded n).map cancel := by
  unfold pollEnded
  have hworkers : m.cancel.workers = m.workers := rfl
  rw [hworkers]
  cases m.workers[n]? with
  | none => rfl
  | some w =>
    have hverdict : (m.cancel.setup.backend.receive n).verdict = m.verdict n := rfl
    have hverdict' : (m.setup.backend.receive n).verdict = m.verdict n := rfl
    simp only [hverdict, hverdict']
    generalize m.verdict n = verdict
    cases w.phase with
    | working a =>
      have hsuspended : m.cancel.suspended n a.wait = m.suspended n a.wait := rfl
      simp only [hsuspended]
      split
      · cases verdict with
        | run => rfl
        | _ => exact congrArg some (lose_cancel { m with producer := .dropping n } n a)
      · rfl
    | closing e =>
      cases verdict with
      | run => rfl
      | _ => exact congrArg some (verdictOf_cancel (m.setPhase n (.ended e)) n)
    | _ => rfl

theorem dropEnded_cancel (m : Machine α) (n : Nat) :
    m.cancel.dropEnded n = (m.dropEnded n).map cancel := by
  unfold dropEnded dropTask
  have hworkers : m.cancel.workers = m.workers := rfl
  rw [hworkers]
  cases m.workers[n]? with
  | none => rfl
  | some w =>
    dsimp only
    cases w.phase with
    | closing e => exact congrArg some (verdictOf_cancel (m.setPhase n (.ended e)) n)
    | _ => rfl

theorem startEnded_cancel (m : Machine α) (outcome : Outcome) :
    m.cancel.startEnded outcome = (m.startEnded outcome).cancel := by
  cases outcome <;> rfl

theorem finishEnded_cancel (m : Machine α) (outcome : Outcome) :
    m.cancel.finishEnded outcome = (m.finishEnded outcome).cancel := by
  cases outcome <;> rfl

theorem stepProducer_cancel (hasks : m.producer.request? = none) :
    m.cancel.stepProducer = m.stepProducer.map cancel := by
  unfold stepProducer
  have hproducer : m.cancel.producer = m.producer := rfl
  rw [hproducer]
  cases hp : m.producer with
  | admitting | draining =>
    rw [hp] at hasks
    cases hasks
  | idle => rfl
  | starting hook =>
    have hawake : m.cancel.hookAwake hook.wait = m.hookAwake hook.wait := rfl
    simp only [hawake, act_cancel]
    split
    · rfl
    · generalize m.act (.hook .start) hook = acted
      obtain ⟨m₁, p⟩ := acted
      cases p with
      | going a => rfl
      | «over» outcome => exact congrArg some (startEnded_cancel m₁ outcome)
  | finishing hook =>
    have hawake : m.cancel.hookAwake hook.wait = m.hookAwake hook.wait := rfl
    simp only [hawake, act_cancel]
    split
    · rfl
    · generalize m.act (.hook .finish) hook = acted
      obtain ⟨m₁, p⟩ := acted
      cases p with
      | going a => rfl
      | «over» outcome => exact congrArg some (finishEnded_cancel m₁ outcome)
  | checking item => exact congrArg some (check_cancel m item)
  | handing item => exact congrArg some (hand_cancel m item)
  | polling n => exact pollEnded_cancel m n
  | dropping n => exact dropEnded_cancel m n
  | refused f =>
    have hcell : m.cancel.cell = m.cell := rfl
    simp only [hcell]
    split <;> rfl
  | outdone f => rfl
  | drained => exact congrArg some (conclude_cancel m)

theorem forsakeHook_cancel (m : Machine α) (a : Activity α) :
    m.cancel.forsakeHook a = (m.forsakeHook a).cancel := by
  unfold forsakeHook
  split <;> rfl

theorem abandon_cancel (hasks : m.producer.request? = none) :
    m.cancel.abandon = m.abandon.map cancel := by
  unfold abandon
  have hproducer : m.cancel.producer = m.producer := rfl
  rw [hproducer]
  cases hp : m.producer with
  | admitting | draining =>
    rw [hp] at hasks
    cases hasks
  | starting a | finishing a =>
    dsimp only
    rw [forsakeHook_cancel]
    rfl
  | _ => rfl

theorem request?_of_producer (h : ProducerStep m m') (hasks : m.producer.request? = none) :
    m'.producer.request? = none := by
  cases h with
  | ask phase | drain phase =>
    rw [phase] at hasks
    cases hasks
  | startOn | finishOn | keep | refusalCaptured | refusalLate | refusalCounted => rfl
  | @startEnd _ outcome => cases outcome <;> rfl
  | @finishEnd _ outcome => cases outcome <;> rfl
  | check =>
    unfold check
    split <;> rfl
  | @hand item =>
    rcases m.hand_cases item with ⟨-, heq⟩ | ⟨-, heq⟩ | ⟨-, -, heq⟩
    all_goals
      rw [heq]
      rfl
  | @dropPolled n w a =>
    obtain ⟨_, _, _, heq⟩ := lose_eq { m with producer := .dropping n } n a
    rw [heq]
    rfl
  | dropQueued => exact hasks
  | @answer n w e =>
    rcases (m.setPhase n (.ended e)).verdictOf_cases n with ⟨-, heq⟩ | ⟨-, heq⟩
    all_goals
      rw [heq]
      rfl
  | conclude =>
    unfold conclude
    split <;> rfl

theorem request?_of_step (h : Transition m move m') (hcall : move.call? = none)
    (hasks : m.producer.request? = none) : m'.producer.request? = none := by
  cases h with
  | violation | start | submit | finish => cases hcall
  | abandonStart | abandonWait | abandonFinish => rfl
  | producer step => exact request?_of_producer step hasks
  | worker _ step =>
    rw [(SameCall.of_worker step).producer]
    exact hasks
  | drop _ _ step =>
    rw [(SameCall.of_drop step).producer]
    exact hasks
  | cancel | world => exact hasks

theorem step_cancel (hcall : move.call? = none) (hasks : m.producer.request? = none) :
    m.cancel.step move = (m.step move).map cancel := by
  cases move with
  | call => cases hcall
  | abandon => exact abandon_cancel hasks
  | producer => exact stepProducer_cancel hasks
  | cancel => rfl
  | _ => exact step_cancel_of_aside rfl

theorem run_cancel {later : List (Move α)} (hcalls : ∀ move ∈ later, move.call? = none)
    (hasks : m.producer.request? = none) : m.cancel.run later = (m.run later).map cancel := by
  induction later generalizing m with
  | nil => rfl
  | cons move later ih =>
    obtain ⟨hcall, hcalls⟩ := List.forall_mem_cons.mp hcalls
    rw [run_cons, run_cons, step_cancel hcall hasks]
    cases hstep : m.step move with
    | none => rfl
    | some m₁ => exact ih hcalls (request?_of_step (transition_of_step hstep) hcall hasks)

end Machine

end WorkBundle
