import WorkBundle.Proofs.Counts
import WorkBundle.Proofs.Failures

/-!
# How failures move

A failure of a worker goes one way only: it is made, offered to the cell, and there it is captured
or it comes too late and is counted, with a line in the log either way. A refusal goes the same way
in the hands of the producer, without a line. `Books` is what of an engine this is about, and
`FailureStep` says how one step moves it, if the backend runs no task inside the producer's call.
-/

set_option autoImplicit false

namespace WorkBundle

variable {α : Type}

/-! ## What the log tells -/

namespace Event

def isFirst : Event → Bool
  | workItemFailed .. => true
  | _ => false

def isLate : Event → Bool
  | interleavedFailureDropped .. => true
  | _ => false

def isTaskFailed : Event → Bool
  | workerTaskFailed .. => true
  | _ => false

/-- The event is one of these three, which are the only ones that `Books` has to be compared with.
-/
def isOutcome (e : Event) : Bool := e.isFirst || e.isLate || e.isTaskFailed

/-- What the engine tells as the failure of the worker with this number, if this event does. An
event of the backend (`isTaskFailed`) is not one: it repeats what the worker has told. -/
def report? (n : Nat) : Event → Option String
  | workItemFailed _ item error | interleavedFailureDropped _ item error =>
    if item = n then some error else none
  | _ => none

end Event

/-! ## What is to be told of a worker -/

namespace Ending

def isFailed : Ending → Bool
  | .failed _ => true
  | _ => false

def isLost : Ending → Bool
  | .lost => true
  | _ => false

def reports (n : Nat) : Ending → List String
  | .failed f => [f.message]
  | .lost => [(Cause.lost n).message]
  | .returned | .unstarted => []

theorem Tells.reports_eq {n : Nat} {f : Failure} {e : Ending} (h : e.Tells n f) :
    e.reports n = [f.message] := by
  cases e with
  | returned | unstarted => exact h.elim
  | failed g => rw [reports, h.1]
  | lost => rw [reports, ← h.2]; rfl

theorem Tells.isBlamed {n : Nat} {f : Failure} {e : Ending} (h : e.Tells n f) :
    (e.isFailed || e.isLost) = true := by
  cases e with
  | returned | unstarted => exact h.elim
  | failed | lost => rfl

theorem Tells.item_eq {n : Nat} {f : Failure} {e : Ending} (h : e.Tells n f) : f.item = n := by
  cases e with
  | returned | unstarted => exact h.elim
  | failed => exact h.2
  | lost => exact h.1

end Ending

namespace WorkerPhase

/-- Has the worker failed or been lost, whether or not that is told yet? Hence `fate?` and not
`ending?`. -/
def isBlamed (p : WorkerPhase α) : Bool := p.fate?.any fun e => e.isFailed || e.isLost

def isPending (p : WorkerPhase α) : Bool := p.pending?.isSome

/-- The reports that have to be in the log by now. They are due from `ending?` on, since a worker
writes its line in the step that takes its failure off its hands. -/
def reports (n : Nat) (p : WorkerPhase α) : List String := p.ending?.elim [] (Ending.reports n)

def isFailedTask : WorkerPhase α → Bool
  | .ended e => e.isFailed
  | _ => false

end WorkerPhase

def Phase.drops? : Phase α → Option Nat
  | .dropping n => some n
  | _ => none

/-! ## What a step does to failures -/

/-- What failures are about in an engine: all the fields that `Balanced` reads. Steps that change
none of them are told from one another nowhere in this ledger. -/
structure Books (α : Type) where
  workers : List (Worker α)
  cell : FailureCell
  log : List Record
  tasksFailed : Nat
  dispatched : Nat
  /-- The task that the backend drops inside the producer's call. -/
  drops? : Option Nat
  refusing : Bool

namespace Machine

def books (m : Machine α) : Books α where
  workers := m.workers
  cell := m.cell
  log := m.log
  tasksFailed := m.tally.tasksFailed
  dispatched := m.dispatched
  drops? := m.producer.drops?
  refusing := m.producer.pending?.isSome

def firstRecord (m : Machine α) (n : Nat) (f : Failure) : Record :=
  ⟨.workItemFailed m.setup.processor.name n f.message, workerSpans⟩

/-- What the backend writes down when it sees the end of a task: only an error, and only if it is
one of those that tell (`reportsAs`). A panic gives no line, since it unwinds the task and leaves
no error to report. -/
def endRecords (m : Machine α) : Ending → List Record
  | .failed f =>
    match m.setup.backend.reportsAs with
    | some backend => [⟨.workerTaskFailed backend f.item f.message, []⟩]
    | none => []
  | _ => []

/-- A step of a worker in which no failure is made, captured or counted; the other kinds of
`FailureStep` are the interesting ones. -/
inductive CalmStep (m : Machine α) (n : Nat) : WorkerPhase α → WorkerPhase α → Prop
  | begin {a : Activity α} (kept : m.producer.drops? ≠ some n) : CalmStep m n .queued (.working a)
  | goOn {a a' : Activity α} : CalmStep m n (.working a) (.working a')
  | returned {a : Activity α} : CalmStep m n (.working a) (.leaving .returned)
  | late {f : Failure} {e : Ending} : CalmStep m n (.offering f e) (.counting f e)
  | left {e : Ending} : CalmStep m n (.leaving e) (.closing e)
  | unstarted : CalmStep m n .queued (.leaving .unstarted)

/-- How failures move in one step. There are fewer cases than in `Transition`, because all steps
that leave the `Books` alone are one case, `still`. -/
inductive FailureStep (m m' : Machine α) : Prop
  | still (more : List Record) (quiet : ∀ r ∈ more, r.event.isOutcome = false)
      (books : m'.books = { m.books with log := m.log ++ more })
  | handed {item : WorkItem α} {more : List Record} (phase : m.producer = .handing item)
      (quiet : ∀ r ∈ more, r.event.isOutcome = false)
      (books : m'.books = { m.books with
        workers := m.workers ++ [⟨item, .queued⟩]
        log := m.log ++ more
        dispatched := m.dispatched + 1
        drops? := if m.verdict m.dispatched = .run then none else some m.dispatched })
  | calm {n : Nat} {w : Worker α} {p : WorkerPhase α} (worker : m.workers[n]? = some w)
      (how : m.CalmStep n w.phase p)
      (books : m'.books = { m.books with workers := (m.setPhase n p).workers })
  | failed {n : Nat} {w : Worker α} {a : Activity α} {f : Failure} {e : Ending}
      (worker : m.workers[n]? = some w) (phase : w.phase = .working a) (tells : e.Tells n f)
      (books : m'.books = { m.books with workers := (m.setPhase n (.offering f e)).workers })
  | captured {n : Nat} {w : Worker α} {f : Failure} {e : Ending} (worker : m.workers[n]? = some w)
      (phase : w.phase = .offering f e) (empty : m.cell.captured = none)
      (books : m'.books = { m.books with
        workers := (m.setPhase n (.leaving e)).workers
        cell := { m.cell with captured := some f }
        log := m.log ++ [m.firstRecord n f] })
  | counted {n : Nat} {w : Worker α} {f : Failure} {e : Ending} (worker : m.workers[n]? = some w)
      (phase : w.phase = .counting f e)
      (books : m'.books = { m.books with
        workers := (m.setPhase n (.leaving e)).workers
        cell := m.cell.countLoser
        log := m.log ++ [m.lateRecord n f] })
  | closed {n : Nat} {w : Worker α} {e : Ending} (worker : m.workers[n]? = some w)
      (phase : w.phase = .closing e) (kept : m.producer.drops? ≠ some n)
      (books : m'.books = { m.books with
        workers := (m.setPhase n (.ended e)).workers
        log := m.log ++ m.endRecords e
        tasksFailed := m.tally.tasksFailed + e.isFailed.toNat })
  | forgotten {n : Nat} {w : Worker α} {e : Ending} (worker : m.workers[n]? = some w)
      (phase : w.phase = .closing e) (held : m.producer = .dropping n)
      (books : m'.books = { m.books with
        workers := (m.setPhase n (.ended e)).workers
        drops? := none
        refusing := m.verdict n == .refuse })
  | refusalCaptured {f : Failure} (phase : m.producer = .refused f)
      (empty : m.cell.captured = none)
      (books : m'.books = { m.books with
        cell := { m.cell with captured := some f }
        refusing := false })
  | refusalCounted {f : Failure} (phase : m.producer = .outdone f)
      (books : m'.books = { m.books with cell := m.cell.countLoser, refusing := false })

theorem books_act {m m₁ : Machine α} {owner : Owner α} {a : Activity α} {p : Progress α}
    (h : m.act owner a = (m₁, p)) : m₁.books = m.books := by
  have htasks := tasksFailed_act h
  obtain ⟨_, _, _, _, _, _, rfl⟩ := act_eq h
  dsimp only at htasks
  simp only [books, htasks]

theorem books_lose (m : Machine α) (n : Nat) (a : Activity α) :
    (m.lose n a).books = { m.books with
      workers := (m.setPhase n (.offering ⟨n, m.minted, .lost n⟩ .lost)).workers } := by
  unfold lose
  cases a.emitting with
  | none => cases a.wait <;> rfl
  | some emitting => cases emitting <;> cases a.wait <;> rfl

theorem books_close (m : Machine α) (n : Nat) (e : Ending) :
    (m.close n e).books = { m.books with
      workers := (m.setPhase n (.ended e)).workers
      log := m.log ++ m.endRecords e
      tasksFailed := m.tally.tasksFailed + e.isFailed.toNat } := by
  cases e with
  | failed f =>
    unfold close endRecords
    dsimp only
    split
    · rename_i hname
      have hname : m.setup.backend.reportsAs = some _ := hname
      rw [hname]
      rfl
    · rename_i hname
      have hname : m.setup.backend.reportsAs = none := hname
      rw [hname, List.append_nil]
      rfl
  | returned | lost | unstarted =>
    unfold close endRecords
    rw [List.append_nil]
    rfl

theorem FailureStep.told {m m' : Machine α} (r : Record) (quiet : r.event.isOutcome = false)
    (workers : m'.workers = m.workers) (cell : m'.cell = m.cell) (log : m'.log = m.log ++ [r])
    (tasks : m'.tally.tasksFailed = m.tally.tasksFailed) (dispatched : m'.dispatched = m.dispatched)
    (drops : m'.producer.drops? = m.producer.drops?)
    (pending : m'.producer.pending?.isSome = m.producer.pending?.isSome) : FailureStep m m' :=
  .still [r] (by simpa using quiet)
    (by simp only [books, workers, cell, log, tasks, dispatched, drops, pending])

theorem FailureStep.silent {m m' : Machine α} (workers : m'.workers = m.workers)
    (cell : m'.cell = m.cell) (log : m'.log = m.log)
    (tasks : m'.tally.tasksFailed = m.tally.tasksFailed) (dispatched : m'.dispatched = m.dispatched)
    (drops : m'.producer.drops? = m.producer.drops?)
    (pending : m'.producer.pending?.isSome = m.producer.pending?.isSome) : FailureStep m m' :=
  .still [] (by simp)
    (by simp only [books, workers, cell, log, List.append_nil, tasks, dispatched, drops, pending])

theorem books_workEnded (m : Machine α) (n : Nat) (outcome : Outcome) :
    (m.workEnded n outcome).books = { m.books with
      workers := (m.setPhase n (outcome.phase n m.minted)).workers } := by
  cases outcome <;> rfl

theorem failureStep_of_worker {m m' : Machine α} {n : Nat} {w : Worker α}
    (hw : m.workers[n]? = some w) (h : WorkerStep m n w m') : FailureStep m m' := by
  have hcalm {m₁ : Machine α} {p q : WorkerPhase α} (phase : w.phase = q) (how : m.CalmStep n q p)
      (hbooks : m₁.books = { m.books with workers := (m.setPhase n p).workers }) :
      FailureStep m m₁ := .calm hw (phase ▸ how) hbooks
  cases h with
  | begin phase kept =>
    refine hcalm phase (.begin fun hdrops => ?_) rfl
    cases hp : m.producer with
    | dropping k =>
      rw [hp] at hdrops
      cases hdrops
      simp [isDropped, hp] at kept
    | _ =>
      rw [hp] at hdrops
      cases hdrops
  | @goOn a a' m₁ phase _ hact =>
    have hworkers : m₁.workers = m.workers := act_workers hact
    have hbooks : (m₁.setPhase n (.working a')).books = { m₁.books with
      workers := (m₁.setPhase n (.working a')).workers } := rfl
    rw [books_act hact, setPhase_workers, hworkers] at hbooks
    exact hcalm phase .goOn hbooks
  | @finish a outcome m₁ phase _ hact =>
    have hworkers : m₁.workers = m.workers := act_workers hact
    have hbooks := m₁.books_workEnded n outcome
    rw [books_act hact, setPhase_workers, hworkers] at hbooks
    cases outcome with
    | returned => exact hcalm phase .returned hbooks
    | failed cause =>
      have tells : (Ending.failed ⟨n, m₁.minted, cause⟩).Tells n ⟨n, m₁.minted, cause⟩ := ⟨rfl, rfl⟩
      exact .failed hw phase tells hbooks
    | panicked =>
      have tells : Ending.lost.Tells n ⟨n, m₁.minted, .lost n⟩ := ⟨rfl, rfl⟩
      exact .failed hw phase tells hbooks
  | @offer f e phase =>
    rcases m.offer_cases n f e with ⟨hempty, heq⟩ | ⟨_, -, heq⟩
    · rw [heq]
      exact .captured hw phase hempty rfl
    · rw [heq]
      exact hcalm phase .late rfl
  | count phase => exact .counted hw phase rfl
  | leave phase => exact hcalm phase .left rfl
  | @close e phase kept =>
    refine .closed hw phase (fun hdrops => ?_) (m.books_close n e)
    cases hp : m.producer with
    | dropping k =>
      rw [hp] at hdrops
      cases hdrops
      simp [isLent, hp] at kept
    | _ =>
      rw [hp] at hdrops
      cases hdrops

theorem failureStep_of_producer {m m' : Machine α} (hpolled : ∀ n, m.producer ≠ .polling n)
    (hunpolled : (m.setup.backend.receive m.dispatched).polled = false) (h : ProducerStep m m') :
    FailureStep m m' := by
  cases h with
  | startOn phase hact | finishOn phase hact =>
    have htasks := tasksFailed_act hact
    obtain ⟨_, _, _, _, _, _, rfl⟩ := act_eq hact
    exact .silent rfl rfl rfl htasks rfl (by rw [phase]; rfl) (by rw [phase]; rfl)
  | @startEnd _ outcome _ phase hact | @finishEnd _ outcome _ phase hact =>
    have htasks := tasksFailed_act hact
    obtain ⟨_, _, _, _, _, _, rfl⟩ := act_eq hact
    cases outcome with
    | returned => exact .told _ rfl rfl rfl rfl htasks rfl (by rw [phase]; rfl) (by rw [phase]; rfl)
    | failed | panicked =>
      exact .silent rfl rfl rfl htasks rfl (by rw [phase]; rfl) (by rw [phase]; rfl)
  | ask phase =>
    unfold askTicket askGate
    split
    · exact .silent rfl rfl rfl rfl rfl rfl rfl
    · exact .silent rfl rfl rfl rfl rfl (by rw [phase]; rfl) (by rw [phase]; rfl)
    · exact .told _ rfl rfl rfl rfl rfl rfl (by rw [phase]; rfl) (by rw [phase]; rfl)
  | drain phase =>
    unfold askEverything askGate
    split
    · exact .silent rfl rfl rfl rfl rfl rfl rfl
    · exact .silent rfl rfl rfl rfl rfl (by rw [phase]; rfl) (by rw [phase]; rfl)
    · exact .told _ rfl rfl rfl rfl rfl rfl (by rw [phase]; rfl) (by rw [phase]; rfl)
  | check phase =>
    unfold check
    split <;> exact .silent rfl rfl rfl rfl rfl (by rw [phase]; rfl) (by rw [phase]; rfl)
  | conclude phase =>
    unfold conclude
    split
    · exact .told _ rfl rfl rfl rfl rfl rfl (by rw [phase]; rfl) (by rw [phase]; rfl)
    · exact .silent rfl rfl rfl rfl rfl (by rw [phase]; rfl) (by rw [phase]; rfl)
  | @hand item phase =>
    have hpending : m.producer.pending?.isSome = false := by rw [phase]; rfl
    have hquiet : ∀ r ∈ [Record.mk (.workItemDispatched m.dispatched m.gate.outstanding)
        bundleSpans], r.event.isOutcome = false := by simp [Event.isOutcome, Event.isFirst,
      Event.isLate, Event.isTaskFailed]
    rcases m.hand_cases item with ⟨hpoll, -⟩ | ⟨hrun, heq⟩ | ⟨-, hdrop, heq⟩
    · exact absurd (hunpolled.symm.trans hpoll) Bool.false_ne_true
    · refine .handed phase hquiet ?_
      rw [heq, if_pos hrun]
      simp only [books, hpending]
      rfl
    · refine .handed phase hquiet ?_
      rw [heq, if_neg hdrop]
      simp only [books, hpending]
      rfl
  | keep phase | dropPolled phase => exact absurd phase (hpolled _)
  | dropQueued phase worker queued =>
    exact .calm worker (queued ▸ .unstarted) rfl
  | @answer n w e phase worker closing =>
    have phase : m.producer = .dropping n := phase.resolve_right fun h => hpolled n h.1
    refine .forgotten worker closing phase ?_
    have hverdict : (m.setPhase n (.ended e)).verdict n = m.verdict n := rfl
    rcases (m.setPhase n (.ended e)).verdictOf_cases n with ⟨hrefuse, heq⟩ | ⟨hkept, heq⟩
    · rw [heq, ← hverdict, hrefuse]
      rfl
    · rw [heq, ← hverdict, beq_eq_false_iff_ne.mpr hkept]
      rfl
  | refusalCaptured phase empty =>
    refine .refusalCaptured phase empty ?_
    simp only [books, phase]
    rfl
  | refusalLate phase =>
    exact .silent rfl rfl rfl rfl rfl (by rw [phase]; rfl) (by rw [phase]; rfl)
  | refusalCounted phase =>
    refine .refusalCounted phase ?_
    simp only [books, phase]
    rfl

theorem failureStep {m m' : Machine α} {move : Move α} (hpolled : ∀ n, m.producer ≠ .polling n)
    (hunpolled : (m.setup.backend.receive m.dispatched).polled = false) (h : Transition m move m') :
    FailureStep m m' := by
  cases h with
  | violation phase | start phase | submit phase | finish phase =>
    exact .silent rfl rfl rfl rfl rfl (by rw [phase]; rfl) (by rw [phase]; rfl)
  | @abandonStart a phase | @abandonFinish a phase =>
    have htasks : (m.forsakeHook a).tally.tasksFailed = m.tally.tasksFailed := by
      unfold forsakeHook
      split <;> rfl
    obtain ⟨tally, heq⟩ := m.forsakeHook_eq a
    rw [heq] at htasks ⊢
    exact .silent rfl rfl rfl htasks rfl (by rw [phase]; rfl) (by rw [phase]; rfl)
  | abandonWait phase =>
    rcases phase with ⟨item, phase⟩ | phase
    all_goals exact .silent rfl rfl rfl rfl rfl (by rw [phase]; rfl) (by rw [phase]; rfl)
  | producer hstep => exact failureStep_of_producer hpolled hunpolled hstep
  | worker hw hstep => exact failureStep_of_worker hw hstep
  | @drop n w _ hw _ hstep =>
    cases hstep with
    | queued phase => exact .calm hw (phase ▸ .unstarted) rfl
    | @working a phase =>
      have tells : Ending.lost.Tells n ⟨n, m.minted, .lost n⟩ := ⟨rfl, rfl⟩
      exact .failed hw phase tells (m.books_lose n a)
  | cancel | world => exact .silent rfl rfl rfl rfl rfl rfl rfl

theorem CalmStep.keeps {m : Machine α} {n : Nat} {p q : WorkerPhase α} (h : m.CalmStep n p q) :
    q.isBlamed = p.isBlamed ∧ q.isPending = p.isPending ∧ q.isFailedTask = p.isFailedTask ∧
      q.reports n = p.reports n := by
  cases h <;> exact ⟨rfl, rfl, rfl, rfl⟩

/-- Counting workers after `Machine.setPhase`, written with sums on both sides: subtraction would
need that the old phase was counted. -/
theorem countP_setPhase {m : Machine α} {n : Nat} {w : Worker α} (mark : WorkerPhase α → Bool)
    (hw : m.workers[n]? = some w) (p : WorkerPhase α) :
    (m.setPhase n p).workers.countP (mark ·.phase) + (mark w.phase).toNat =
      m.workers.countP (mark ·.phase) + (mark p).toNat :=
  countP_modify hw

end Machine

end WorkBundle
