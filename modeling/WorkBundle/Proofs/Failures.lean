import WorkBundle.Proofs.Calls

/-!
# Failures and their records

A failure is made, offered to the cell, and either captured or counted late; only after that does
its worker give its ticket back. `PhaseStep` is the life of one worker, step by step, with what
each step does to the cell and the log, and `WorkersStep` says that a transition takes at most one
worker a step further. The cell is written once (`captured_step`), and nothing that was recorded
is ever lost (`Later`).

From these follows `Accounted`: the outcome of every worker that is about to give its ticket back,
or has given it back, is recorded — but for a worker whose task was dropped before it had begun,
which leaves nothing to record.
-/

set_option autoImplicit false

namespace WorkBundle

variable {α : Type}

/-- The failure tells of this ending of the worker with this number. A panic and a dropped task give
the same failure, with the cause `lost`, since the guard cannot tell them apart. -/
def Ending.Tells (n : Nat) (f : Failure) : Ending → Prop
  | .failed g => g = f ∧ f.item = n
  | .lost => f.item = n ∧ f.cause = .lost n
  | .returned | .unstarted => False

def WorkerPhase.pending? : WorkerPhase α → Option Failure
  | .offering f _ | .counting f _ => some f
  | _ => none

/-- The refusal that the producer is about to hand in. -/
def Phase.pending? : Phase α → Option Failure
  | .refused f | .outdone f => some f
  | _ => none

namespace Machine

/-! ## What a step does to the workers -/

def lateRecord (m : Machine α) (n : Nat) (f : Failure) : Record :=
  ⟨.interleavedFailureDropped m.setup.processor.name n f.message, workerSpans⟩

/-- One step in the life of a worker, as its phases show it. `Transition` has these steps too, but
there each comes with all the fields of the engine that it leaves alone. -/
inductive PhaseStep (m m' : Machine α) (move : Move α) (n : Nat) :
    WorkerPhase α → WorkerPhase α → Prop
  | begin {a : Activity α} (kept : m.isDropped n = false) :
      PhaseStep m m' move n .queued (.working a)
  | goOn {a a' : Activity α} : PhaseStep m m' move n (.working a) (.working a')
  | returned {a : Activity α} : PhaseStep m m' move n (.working a) (.leaving .returned)
  | failed {a : Activity α} {e : Ending} {cause : Cause} (minted : m'.minted = m.minted + 1)
      (tells : e.Tells n ⟨n, m.minted, cause⟩) :
      PhaseStep m m' move n (.working a) (.offering ⟨n, m.minted, cause⟩ e)
  | captured {f : Failure} {e : Ending} (full : m'.cell.captured = some f) :
      PhaseStep m m' move n (.offering f e) (.leaving e)
  | late {f g : Failure} {e : Ending} (full : m'.cell.captured = some g) :
      PhaseStep m m' move n (.offering f e) (.counting f e)
  | counted {f : Failure} {e : Ending} (logged : m.lateRecord n f ∈ m'.log) :
      PhaseStep m m' move n (.counting f e) (.leaving e)
  | left {e : Ending} : PhaseStep m m' move n (.leaving e) (.closing e)
  | closed {e : Ending} : PhaseStep m m' move n (.closing e) (.ended e)
  | unstarted (dropped : move = .drop n ∨ move = .producer ∧ m.producer = .dropping n) :
      PhaseStep m m' move n .queued (.leaving .unstarted)

/-- What a step makes of the workers: nothing, one more, or one of them a `PhaseStep` further. An
invariant of single workers has to be proved for these three cases only. -/
inductive WorkersStep (m m' : Machine α) (move : Move α) : Prop
  | same (workers : m'.workers = m.workers)
  | more {item : WorkItem α} (phase : m.producer = .handing item)
      (workers : m'.workers = m.workers ++ [⟨item, .queued⟩])
  | change {n : Nat} {w : Worker α} {p : WorkerPhase α} (worker : m.workers[n]? = some w)
      (workers : m'.workers = (m.setPhase n p).workers) (how : PhaseStep m m' move n w.phase p)

theorem lose_workers (m : Machine α) (n : Nat) (a : Activity α) :
    (m.lose n a).workers = (m.setPhase n (.offering ⟨n, m.minted, .lost n⟩ .lost)).workers ∧
      (m.lose n a).minted = m.minted + 1 := by
  obtain ⟨lock, supply, tally, heq⟩ := m.lose_eq n a
  rw [heq]
  exact ⟨rfl, rfl⟩

theorem workersStep_of_worker {m m' : Machine α} {n : Nat} {w : Worker α}
    (hw : m.workers[n]? = some w) (h : WorkerStep m n w m') (move : Move α) :
    WorkersStep m m' move := by
  have hchange {p q : WorkerPhase α} (phase : w.phase = q)
      (hworkers : m'.workers = (m.setPhase n p).workers) (how : PhaseStep m m' move n q p) :
      WorkersStep m m' move := .change hw hworkers (phase ▸ how)
  cases h with
  | begin phase kept => exact hchange phase rfl (.begin kept)
  | goOn phase _ hact =>
    obtain ⟨_, _, _, _, _, _, rfl⟩ := act_eq hact
    exact hchange phase rfl .goOn
  | @finish a outcome _ phase _ hact =>
    obtain ⟨_, _, _, _, _, _, rfl⟩ := act_eq hact
    cases outcome with
    | returned => exact hchange phase rfl .returned
    | failed cause => exact hchange phase rfl (.failed rfl ⟨rfl, rfl⟩)
    | panicked => exact hchange phase rfl (.failed rfl ⟨rfl, rfl⟩)
  | @offer f e phase =>
    rcases m.offer_cases n f e with ⟨-, heq⟩ | ⟨g, hfull, heq⟩
    · rw [heq] at hchange ⊢
      exact hchange phase rfl (.captured rfl)
    · rw [heq] at hchange ⊢
      exact hchange phase rfl (.late hfull)
  | count phase => exact hchange phase rfl (.counted (List.mem_append_right _ List.mem_cons_self))
  | leave phase => exact hchange phase rfl .left
  | @close e phase =>
    obtain ⟨tally, log, heq⟩ := m.close_eq n e
    rw [heq] at hchange ⊢
    exact hchange phase rfl .closed

theorem workersStep_of_producer {m m' : Machine α} (h : ProducerStep m m') :
    WorkersStep m m' .producer := by
  cases h with
  | startOn _ hact | finishOn _ hact =>
    obtain ⟨_, _, _, _, _, _, rfl⟩ := act_eq hact
    exact .same rfl
  | @startEnd _ outcome _ _ hact =>
    obtain ⟨_, _, _, _, _, _, rfl⟩ := act_eq hact
    cases outcome <;> exact .same rfl
  | ask =>
    unfold askTicket askGate
    split <;> exact .same rfl
  | check =>
    unfold check
    split <;> exact .same rfl
  | @hand item phase =>
    rcases m.hand_cases item with ⟨-, heq⟩ | ⟨-, heq⟩ | ⟨-, -, heq⟩
    all_goals
      rw [heq]
      exact .more phase rfl
  | keep | refusalCaptured | refusalLate | refusalCounted => exact .same rfl
  -- A refused or discarded task takes its worker along.
  | @dropPolled n w a _ worker _ working =>
    obtain ⟨hworkers, hminted⟩ := lose_workers { m with producer := .dropping n } n a
    refine .change worker hworkers ?_
    rw [working]
    exact .failed hminted ⟨rfl, rfl⟩
  | dropQueued phase worker queued =>
    refine .change worker rfl ?_
    rw [queued]
    exact .unstarted (Or.inr ⟨rfl, phase⟩)
  | @answer n w e _ worker closing =>
    have how {m₁ : Machine α} : PhaseStep m m₁ .producer n w.phase (.ended e) := by
      rw [closing]
      exact .closed
    rcases (m.setPhase n (.ended e)).verdictOf_cases n with ⟨-, heq⟩ | ⟨-, heq⟩
    all_goals
      rw [heq]
      exact .change worker rfl how
  | drain =>
    unfold askEverything askGate
    split <;> exact .same rfl
  | conclude =>
    unfold conclude
    split <;> exact .same rfl
  | @finishEnd _ outcome _ _ hact =>
    obtain ⟨_, _, _, _, _, _, rfl⟩ := act_eq hact
    cases outcome <;> exact .same rfl

theorem workersStep {m m' : Machine α} {move : Move α} (h : Transition m move m') :
    WorkersStep m m' move := by
  cases h with
  | violation | start | submit | finish | abandonWait | cancel | world => exact .same rfl
  | @abandonStart a | @abandonFinish a =>
    obtain ⟨tally, heq⟩ := m.forsakeHook_eq a
    rw [heq]
    exact .same rfl
  | producer hstep => exact workersStep_of_producer hstep
  | worker hw hstep => exact workersStep_of_worker hw hstep _
  | drop hw _ hstep =>
    cases hstep with
    | queued phase =>
      refine .change hw rfl ?_
      rw [phase]
      exact .unstarted (Or.inl rfl)
    | @working a phase =>
      obtain ⟨hworkers, hminted⟩ := m.lose_workers _ a
      refine .change hw hworkers ?_
      rw [phase]
      exact .failed hminted ⟨rfl, rfl⟩

theorem items_step {m m' : Machine α} {move : Move α} (h : Transition m move m')
    (hp : ∀ item, m.producer ≠ .handing item) : m'.items = m.items := by
  cases workersStep h with
  | same workers => rw [items, workers]; rfl
  | more phase => exact absurd phase (hp _)
  | change _ workers =>
    rw [items, workers]
    exact m.items_setPhase _ _

/-! ## What a step does to the cell -/

/-- How the captured failure can change: it does not, or the cell was empty and takes the failure of
a worker or the refusal that the producer hands in. That it is never replaced is `captured_run`. -/
inductive CellStep (m m' : Machine α) : Prop
  | same (cell : m'.cell.captured = m.cell.captured)
  | worker {n : Nat} {w : Worker α} {f : Failure} {e : Ending} (empty : m.cell.captured = none)
      (worker : m.workers[n]? = some w) (phase : w.phase = .offering f e)
      (full : m'.cell.captured = some f)
  | refusal {f : Failure} (empty : m.cell.captured = none) (phase : m.producer = .refused f)
      (idle : m'.producer = .idle) (full : m'.cell.captured = some f)

/-- What a step leaves as it was, or only adds to. Facts such as `Noted` are kept by all steps
because of this and of `CellStep`. -/
structure Later (m m' : Machine α) : Prop where
  setup : m'.setup = m.setup
  minted : m.minted ≤ m'.minted
  log : ∀ r ∈ m.log, r ∈ m'.log

theorem Later.of_frame {m m' : Machine α} {log : List Record} (hsetup : m'.setup = m.setup)
    (hminted : m.minted ≤ m'.minted) (hlog : m'.log = m.log ++ log) : Later m m' :=
  ⟨hsetup, hminted, fun r hr => by rw [hlog]; exact List.mem_append_left _ hr⟩

theorem Later.of_silence {m m' : Machine α} (hsetup : m'.setup = m.setup)
    (hminted : m.minted ≤ m'.minted) (hlog : m'.log = m.log) : Later m m' :=
  ⟨hsetup, hminted, fun r hr => by rw [hlog]; exact hr⟩

theorem cellStep_of_worker {m m' : Machine α} {n : Nat} {w : Worker α}
    (hw : m.workers[n]? = some w) (h : WorkerStep m n w m') : CellStep m m' ∧ Later m m' := by
  cases h with
  | begin | leave => exact ⟨.same rfl, .of_silence rfl (Nat.le_refl _) rfl⟩
  | goOn _ _ hact =>
    obtain ⟨_, _, _, _, _, _, rfl⟩ := act_eq hact
    exact ⟨.same rfl, .of_silence rfl (Nat.le_refl _) rfl⟩
  | @finish a outcome _ phase _ hact =>
    obtain ⟨_, _, _, _, _, _, rfl⟩ := act_eq hact
    cases outcome with
    | returned => exact ⟨.same rfl, .of_silence rfl (Nat.le_refl _) rfl⟩
    | failed cause => exact ⟨.same rfl, .of_silence rfl (Nat.le_succ _) rfl⟩
    | panicked => exact ⟨.same rfl, .of_silence rfl (Nat.le_succ _) rfl⟩
  | @offer f e phase =>
    rcases m.offer_cases n f e with ⟨hempty, heq⟩ | ⟨g, -, heq⟩
    · rw [heq]
      exact ⟨.worker hempty hw phase rfl, .of_frame rfl (Nat.le_refl _) rfl⟩
    · rw [heq]
      exact ⟨.same rfl, .of_silence rfl (Nat.le_refl _) rfl⟩
  | count => exact ⟨.same rfl, .of_frame rfl (Nat.le_refl _) rfl⟩
  | @close e =>
    obtain ⟨tally, log, heq⟩ := m.close_eq n e
    rw [heq]
    exact ⟨.same rfl, .of_frame rfl (Nat.le_refl _) rfl⟩

theorem cellStep_of_lose (m : Machine α) (n : Nat) (a : Activity α) :
    CellStep m (m.lose n a) ∧ Later m (m.lose n a) := by
  obtain ⟨lock, supply, tally, heq⟩ := m.lose_eq n a
  rw [heq]
  exact ⟨.same rfl, .of_silence rfl (Nat.le_succ _) rfl⟩

theorem cellStep_of_producer {m m' : Machine α} (h : ProducerStep m m') :
    CellStep m m' ∧ Later m m' := by
  have hle := Nat.le_refl m.minted
  cases h with
  | startOn _ hact | finishOn _ hact =>
    obtain ⟨_, _, _, _, _, _, rfl⟩ := act_eq hact
    exact ⟨.same rfl, .of_silence rfl hle rfl⟩
  | @startEnd _ outcome _ _ hact =>
    obtain ⟨_, _, _, _, _, _, rfl⟩ := act_eq hact
    cases outcome with
    | returned => exact ⟨.same rfl, .of_frame rfl hle rfl⟩
    | failed cause => exact ⟨.same rfl, .of_silence rfl hle rfl⟩
    | panicked => exact ⟨.same rfl, .of_silence rfl hle rfl⟩
  | ask =>
    unfold askTicket askGate
    split
    · exact ⟨.same rfl, .of_silence rfl hle rfl⟩
    · exact ⟨.same rfl, .of_silence rfl hle rfl⟩
    · exact ⟨.same rfl, .of_frame rfl hle rfl⟩
  | check =>
    unfold check
    split <;> exact ⟨.same rfl, .of_silence rfl hle rfl⟩
  | @hand item =>
    rcases m.hand_cases item with ⟨-, heq⟩ | ⟨-, heq⟩ | ⟨-, -, heq⟩
    all_goals
      rw [heq]
      exact ⟨.same rfl, .of_frame rfl hle rfl⟩
  | keep | dropQueued => exact ⟨.same rfl, .of_silence rfl hle rfl⟩
  | @dropPolled n w a =>
    obtain ⟨lock, supply, tally, heq⟩ := lose_eq { m with producer := .dropping n } n a
    rw [heq]
    exact ⟨.same rfl, .of_silence rfl (Nat.le_succ _) rfl⟩
  | @answer n w e =>
    rcases (m.setPhase n (.ended e)).verdictOf_cases n with ⟨-, heq⟩ | ⟨-, heq⟩
    · rw [heq]
      exact ⟨.same rfl, .of_silence rfl (Nat.le_succ _) rfl⟩
    · rw [heq]
      exact ⟨.same rfl, .of_silence rfl hle rfl⟩
  -- The one step of the producer that writes the cell.
  | refusalCaptured phase empty => exact ⟨.refusal empty phase rfl rfl, .of_silence rfl hle rfl⟩
  | refusalLate | refusalCounted => exact ⟨.same rfl, .of_silence rfl hle rfl⟩
  | drain =>
    unfold askEverything askGate
    split
    · exact ⟨.same rfl, .of_silence rfl hle rfl⟩
    · exact ⟨.same rfl, .of_silence rfl hle rfl⟩
    · exact ⟨.same rfl, .of_frame rfl hle rfl⟩
  | conclude =>
    unfold conclude
    split
    · exact ⟨.same rfl, .of_frame rfl hle rfl⟩
    · exact ⟨.same rfl, .of_silence rfl hle rfl⟩
  | @finishEnd _ outcome _ _ hact =>
    obtain ⟨_, _, _, _, _, _, rfl⟩ := act_eq hact
    cases outcome with
    | returned => exact ⟨.same rfl, .of_frame rfl hle rfl⟩
    | failed cause => exact ⟨.same rfl, .of_silence rfl hle rfl⟩
    | panicked => exact ⟨.same rfl, .of_silence rfl hle rfl⟩

theorem cellStep {m m' : Machine α} {move : Move α} (h : Transition m move m') :
    CellStep m m' ∧ Later m m' := by
  have hle := Nat.le_refl m.minted
  cases h with
  | violation | start | submit | finish | abandonWait | cancel | world =>
    exact ⟨.same rfl, .of_silence rfl hle rfl⟩
  | @abandonStart a | @abandonFinish a =>
    obtain ⟨tally, heq⟩ := m.forsakeHook_eq a
    rw [heq]
    exact ⟨.same rfl, .of_silence rfl hle rfl⟩
  | producer hstep => exact cellStep_of_producer hstep
  | worker hw hstep => exact cellStep_of_worker hw hstep
  | drop _ _ hstep =>
    cases hstep with
    | queued => exact ⟨.same rfl, .of_silence rfl hle rfl⟩
    | working => exact m.cellStep_of_lose _ _

theorem captured_step {m m' : Machine α} {move : Move α} (h : Transition m move m') {f : Failure}
    (hf : m.cell.captured = some f) : m'.cell.captured = some f := by
  cases (cellStep h).1 with
  | same cell => rw [cell, hf]
  | worker empty | refusal empty =>
    rw [empty] at hf
    cases hf

theorem captured_none_of_step {m m' : Machine α} {move : Move α} (h : Transition m move m')
    (hcell : m'.cell.captured = none) : m.cell.captured = none := by
  cases hc : m.cell.captured with
  | none => rfl
  | some f =>
    rw [captured_step h hc] at hcell
    cases hcell

theorem captured_run {m m' : Machine α} {moves : List (Move α)} (hrun : m.run moves = some m')
    {f : Failure} (hf : m.cell.captured = some f) : m'.cell.captured = some f :=
  run_invariant (I := fun m => m.cell.captured = some f) (fun hf h => captured_step h hf) hf hrun

/-! ## Every outcome is recorded -/

/-- The failure of this worker is the captured one, or came later and was written to the log, with
its `lateRecord`; it cannot vanish without a trace. -/
def Noted (m : Machine α) (n : Nat) (f : Failure) : Prop :=
  m.cell.captured = some f ∨ m.cell.captured.isSome ∧ m.lateRecord n f ∈ m.log

/-- Nothing went wrong with this worker, or a failure that tells of it is `Noted`. A task that was
dropped before it had begun leaves no record. -/
def Recorded (m : Machine α) (n : Nat) (e : Ending) : Prop :=
  e = .returned ∨ e = .unstarted ∨ ∃ f, e.Tells n f ∧ m.Noted n f

/-- A worker in this phase still has its failure `pending?`, or its outcome is `Recorded`. That a
worker offers before it gives its ticket back is the order in which its guard is dropped. -/
def Accounts (m : Machine α) (n : Nat) : WorkerPhase α → Prop
  | .queued | .working _ => True
  | .offering f e => e.Tells n f
  | .counting f e => e.Tells n f ∧ m.cell.captured.isSome
  | .leaving e | .closing e | .ended e => m.Recorded n e

/-- Every worker `Accounts` for its failure, all along: proved once, used for the barrier, the
ledger and the attribution. -/
def Accounted (m : Machine α) : Prop :=
  ∀ n w, m.workers[n]? = some w → m.Accounts n w.phase

theorem isSome_captured_step {m m' : Machine α} {move : Move α} (h : Transition m move m')
    (hf : m.cell.captured.isSome) : m'.cell.captured.isSome := by
  obtain ⟨f, hf⟩ := Option.isSome_iff_exists.mp hf
  rw [captured_step h hf]
  rfl

theorem Noted.step {m m' : Machine α} {move : Move α} {n : Nat} {f : Failure} (hf : m.Noted n f)
    (h : Transition m move m') : m'.Noted n f := by
  rcases hf with hf | ⟨hsome, hlog⟩
  · exact Or.inl (captured_step h hf)
  · have hlater := (cellStep h).2
    refine Or.inr ⟨isSome_captured_step h hsome, ?_⟩
    rw [lateRecord, hlater.setup]
    exact hlater.log _ hlog

theorem Recorded.step {m m' : Machine α} {move : Move α} {n : Nat} {e : Ending}
    (he : m.Recorded n e) (h : Transition m move m') : m'.Recorded n e := by
  rcases he with rfl | rfl | ⟨f, htells, hf⟩
  · exact Or.inl rfl
  · exact Or.inr (Or.inl rfl)
  · exact Or.inr (Or.inr ⟨f, htells, hf.step h⟩)

theorem Accounts.step {m m' : Machine α} {move : Move α} {n : Nat} {p : WorkerPhase α}
    (hp : m.Accounts n p) (h : Transition m move m') : m'.Accounts n p := by
  cases p with
  | queued => trivial
  | working a => trivial
  | offering f e => exact hp
  | counting f e => exact ⟨hp.1, isSome_captured_step h hp.2⟩
  | leaving e => exact Recorded.step hp h
  | closing e => exact Recorded.step hp h
  | ended e => exact Recorded.step hp h

theorem Accounts.next {m m' : Machine α} {move : Move α} {n : Nat} {p q : WorkerPhase α}
    (hp : m.Accounts n p) (h : Transition m move m') (how : PhaseStep m m' move n p q) :
    m'.Accounts n q := by
  have hp := hp.step h
  cases how with
  | begin => trivial
  | goOn => trivial
  | returned => exact Or.inl rfl
  | failed _ tells => exact tells
  | captured full => exact Or.inr (Or.inr ⟨_, hp, Or.inl full⟩)
  | late full => exact ⟨hp, by rw [full]; rfl⟩
  | @counted f e logged =>
    have hrecord : m'.lateRecord n f ∈ m'.log := by
      rw [lateRecord, (cellStep h).2.setup]
      exact logged
    exact Or.inr (Or.inr ⟨_, hp.1, Or.inr ⟨hp.2, hrecord⟩⟩)
  | left => exact hp
  | closed => exact hp
  | unstarted => exact Or.inr (Or.inl rfl)

namespace Accounted

theorem new (setup : Setup α) (scope : Scope) : (Machine.new setup scope).Accounted := by
  intro n w hw
  cases hw

theorem step {m m' : Machine α} {move : Move α} (ha : m.Accounted) (h : Transition m move m') :
    m'.Accounted := by
  intro k w' hw'
  cases workersStep h with
  | same workers =>
    rw [workers] at hw'
    exact (ha k w' hw').step h
  | more _ workers =>
    rw [workers] at hw'
    rcases getElem?_concat_cases hw' with ⟨-, rfl⟩ | hw'
    · trivial
    · exact (ha k w' hw').step h
  | change worker workers how =>
    rw [workers] at hw'
    rcases worker_of_setPhase worker hw' with ⟨rfl, rfl⟩ | ⟨-, hw'⟩
    · exact (ha _ _ worker).next h how
    · exact (ha k w' hw').step h

theorem run {m m' : Machine α} {moves : List (Move α)} (ha : m.Accounted)
    (hrun : m.run moves = some m') : m'.Accounted :=
  run_invariant (fun ha h => ha.step h) ha hrun

end Accounted

theorem captured_of_recorded {m : Machine α} {n : Nat} {e : Ending} (h : m.Recorded n e)
    (he : e ≠ .unstarted) : e = .returned ∨ m.cell.captured.isSome := by
  rcases h with rfl | rfl | ⟨f, -, hf | ⟨hf, -⟩⟩
  · exact Or.inl rfl
  · exact absurd rfl he
  · exact Or.inr (by rw [hf]; rfl)
  · exact Or.inr hf

theorem recorded_of_ending {m : Machine α} (ha : m.Accounted) {n : Nat} {w : Worker α} {e : Ending}
    (hw : m.workers[n]? = some w) (he : w.phase.ending? = some e) : m.Recorded n e := by
  have haccounts := ha n w hw
  cases hp : w.phase <;> rw [hp] at haccounts he <;> cases he <;> exact haccounts

/-! ## What the backend has decided -/

/-- The backend has refused the item that this failure tells of (`verdict`), with the reason it
gives. -/
def IsRefusal (m : Machine α) (f : Failure) : Prop :=
  m.verdict f.item = .refuse ∧ f.cause = .execution (.backend f.item m.setup.backend.reason)

/-- What the producer does with a task, and is about to say about it, is what `Backend.receive` has
decided; a refusal that is `outdone` came after another failure. -/
def Judged (m : Machine α) : Phase α → Prop
  | .polling n => (m.setup.backend.receive n).polled = true
  | .dropping n => m.verdict n ≠ .run
  | .refused f => m.IsRefusal f
  | .outdone f => m.IsRefusal f ∧ m.cell.captured.isSome
  | _ => True

theorem Judged.mono {m m' : Machine α} {p : Phase α} (h : m.Judged p) (hsetup : m'.setup = m.setup)
    (hcell : m.cell.captured.isSome → m'.cell.captured.isSome) : m'.Judged p := by
  cases p with
  | polling n =>
    unfold Judged at h ⊢
    rwa [hsetup]
  | dropping n =>
    unfold Judged verdict at h ⊢
    rwa [hsetup]
  | refused f =>
    unfold Judged IsRefusal verdict at h ⊢
    rwa [hsetup]
  | outdone f =>
    unfold Judged IsRefusal verdict at h ⊢
    rw [hsetup]
    exact ⟨h.1, hcell h.2⟩
  | _ => trivial

theorem judged_of_verdictOf {m : Machine α} {n : Nat} : m.Judged (m.verdictOf n).producer := by
  rcases m.verdictOf_cases n with ⟨hrefuse, heq⟩ | ⟨-, heq⟩
  · rw [heq]
    exact ⟨hrefuse, rfl⟩
  · rw [heq]
    trivial

theorem judged_of_producer {m m' : Machine α} (hj : m.Judged m.producer) (h : ProducerStep m m') :
    m.Judged m'.producer := by
  cases h with
  | startOn _ hact | finishOn _ hact => trivial
  | @startEnd _ outcome | @finishEnd _ outcome => cases outcome <;> trivial
  | ask phase =>
    unfold askTicket askGate
    split
    · rw [phase]
      trivial
    all_goals trivial
  | drain phase =>
    unfold askEverything askGate
    split
    · rw [phase]
      trivial
    all_goals trivial
  | check =>
    unfold check
    split <;> trivial
  | conclude =>
    unfold conclude
    split <;> trivial
  | @hand item =>
    rcases m.hand_cases item with ⟨hpolled, heq⟩ | ⟨-, heq⟩ | ⟨-, hverdict, heq⟩
    · rw [heq]
      exact hpolled
    · rw [heq]
      trivial
    · rw [heq]
      exact hverdict
  | keep | refusalCaptured | refusalCounted => trivial
  | @dropPolled n w a _ _ verdict =>
    rw [(SameCall.lose { m with producer := .dropping n } n a).producer]
    exact verdict
  | dropQueued => exact hj
  | answer => exact judged_of_verdictOf
  | refusalLate phase full =>
    rw [phase] at hj
    exact ⟨hj, by rw [full]; rfl⟩

theorem judged_step {m m' : Machine α} {move : Move α} (hj : m.Judged m.producer)
    (h : Transition m move m') : m'.Judged m'.producer := by
  refine Judged.mono (m := m) ?_ (cellStep h).2.setup (isSome_captured_step h)
  cases h with
  | violation | start | submit | finish | abandonStart | abandonWait | abandonFinish => trivial
  | producer hstep => exact judged_of_producer hj hstep
  | worker _ hstep =>
    rw [(SameCall.of_worker hstep).producer]
    exact hj
  | drop _ _ hstep =>
    rw [(SameCall.of_drop hstep).producer]
    exact hj
  | cancel | world => exact hj

end Machine

end WorkBundle
