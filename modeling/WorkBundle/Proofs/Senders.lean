import WorkBundle.Proofs.Dropped
import WorkBundle.Proofs.Emits

/-!
# Whose code runs

Emissions come from code, and in one step at most one piece of code runs: that of one worker, or
that of a hook. `CodeStep` says which, and what happens to the code of all the others. A worker
has its code ahead of it from the moment its item is handed over (`Worker.code?`); to begin does
not change it.

The code of a worker is lost if its task is dropped. A backend that is faithful drops only what it
refuses, and refuses it before it has begun (`Backend.IsFaithful`). So the workers fall into two
kinds, told apart by the backend's word: those that run their code to its end, and those that
never begin (`Machine.Barred`).
-/

set_option autoImplicit false

namespace WorkBundle

variable {α : Type}

def Phase.hook? : Phase α → Option (Hook × Activity α)
  | .starting a => some (.start, a)
  | .finishing a => some (.finish, a)
  | _ => none

theorem Phase.of_hook? {p : Phase α} {hook : Hook} {a : Activity α} (h : p.hook? = some (hook, a)) :
    hook = .start ∧ p = .starting a ∨ hook = .finish ∧ p = .finishing a := by
  cases p with
  | starting =>
    cases h
    exact Or.inl ⟨rfl, rfl⟩
  | finishing =>
    cases h
    exact Or.inr ⟨rfl, rfl⟩
  | _ => cases h

def WorkerPhase.code? (item : WorkItem α) : WorkerPhase α → Option (Activity α)
  | .queued => some { script := item.script }
  | .working a => some a
  | _ => none

def Worker.code? (w : Worker α) : Option (Activity α) := w.phase.code? w.item

def Progress.code? : Progress α → Option (Activity α)
  | .going a => some a
  | .over _ => none

theorem Progress.phase_code? (item : WorkItem α) (number identity : Nat) (p : Progress α) :
    (p.phase number identity).code? item = p.code? := by
  cases p with
  | going => rfl
  | «over» outcome => cases outcome <;> rfl

/-- The backend refuses a task without having run any of it, or it runs it to its end. That leaves
out two kinds: one that accepts a task and drops it, and one that refuses it halfway. -/
def Backend.IsFaithful (b : Backend) : Prop :=
  ∀ n, (b.receive n).verdict = .run ∨
    (b.receive n).verdict = .refuse ∧ (b.receive n).polled = false

/-- A move of the engine or of the world around it, but not one that breaks off a call or a task;
nor one that closes the supply, if the supply is to stay open. -/
structure Move.IsSteady (opened : Bool) (move : Move α) : Prop where
  inner : move.isInner = true
  kept : ∀ n, move ≠ .drop n
  supply : opened = true → move ≠ .closeSupply

namespace Machine

/-! ## One step -/

/-- No code has run, and no hook has begun or ended but the finish hook, which begins after the
drain. So what code leaves behind is as it was. -/
structure Silent (m m' : Machine α) (move : Move α) : Prop where
  arrivals : m'.arrivals = m.arrivals
  scope : m'.scope = m.scope
  supply : m'.supplyClosed = m.supplyClosed ∨ move = .closeSupply
  hook : move.isInner = true → m'.producer.hook? = m.producer.hook? ∨
    m.producer = .drained ∧
      m'.producer = .finishing { script := m.setup.processor.finishHook }

structure Traces (m₁ m' : Machine α) : Prop where
  arrivals : m'.arrivals = m₁.arrivals
  scope : m'.scope = m₁.scope
  supply : m'.supplyClosed = m₁.supplyClosed

/-- Whose code a step runs: that of one worker, of a hook, or none. In `aside` a worker goes on, but
not with its code, or it loses its code because its task is dropped. -/
inductive CodeStep (m m' : Machine α) (move : Move α) : Prop
  | still (silent : m.Silent m' move) (workers : m'.workers = m.workers)
  | more {item : WorkItem α} (silent : m.Silent m' move) (phase : m.producer = .handing item)
      (workers : m'.workers = m.workers ++ [⟨item, .queued⟩])
  | aside {n : Nat} {w : Worker α} {p : WorkerPhase α} (silent : m.Silent m' move)
      (worker : m.workers[n]? = some w) (workers : m'.workers = (m.setPhase n p).workers)
      (code : p.code? w.item = w.code? ∧ p.fate? = w.phase.fate? ∨
        p.code? w.item = none ∧ (move = .drop n ∨ m.verdict n ≠ .run))
  | worker {n : Nat} {w : Worker α} {a : Activity α} {p : Progress α} {m₁ : Machine α}
      (worker : m.workers[n]? = some w) (phase : w.phase = .working a)
      (act : m.act (.worker n w.item) a = (m₁, p)) (traces : m₁.Traces m')
      (workers : m'.workers = (m.setPhase n (p.phase n m.minted)).workers)
      (producer : m'.producer = m.producer)
  | hook {hook : Hook} {a : Activity α} {p : Progress α} {m₁ : Machine α}
      (phase : m.producer.hook? = some (hook, a)) (act : m.act (.hook hook) a = (m₁, p))
      (traces : m₁.Traces m') (workers : m'.workers = m.workers)
      (next : m'.producer.hook? = p.code?.map (hook, ·))
      (ended : p.code? = none → m'.producer = .idle)

theorem codeStep_of_worker {m m' : Machine α} {n : Nat} {w : Worker α}
    (hw : m.workers[n]? = some w) (h : WorkerStep m n w m') : CodeStep m m' (.worker n) := by
  have haside {p q : WorkerPhase α} (phase : w.phase = q) (silent : m.Silent m' (.worker n))
      (workers : m'.workers = (m.setPhase n p).workers)
      (code : p.code? w.item = q.code? w.item) (fate : p.fate? = q.fate?) :
      CodeStep m m' (.worker n) :=
    .aside silent hw workers (Or.inl ⟨by rw [Worker.code?, phase]; exact code, phase ▸ fate⟩)
  cases h with
  | begin phase => exact haside phase ⟨rfl, rfl, Or.inl rfl, fun _ => Or.inl rfl⟩ rfl rfl rfl
  | goOn phase _ hact =>
    refine .worker hw phase hact ⟨rfl, rfl, rfl⟩ ?_ ?_
    all_goals
      obtain ⟨_, _, _, _, _, _, rfl⟩ := act_eq hact
      rfl
  | @finish a outcome m₁ phase _ hact =>
    obtain ⟨tally, minted, -, heq⟩ := m₁.workEnded_eq n outcome
    rw [heq]
    refine .worker hw phase hact ⟨rfl, rfl, rfl⟩ ?_ ?_
    all_goals
      obtain ⟨_, _, _, _, _, _, rfl⟩ := act_eq hact
      rfl
  | @offer f e phase =>
    rcases m.offer_cases n f e with ⟨-, heq⟩ | ⟨_, -, heq⟩
    all_goals
      rw [heq] at haside ⊢
      exact haside phase ⟨rfl, rfl, Or.inl rfl, fun _ => Or.inl rfl⟩ rfl rfl rfl
  | count phase | leave phase =>
    exact haside phase ⟨rfl, rfl, Or.inl rfl, fun _ => Or.inl rfl⟩ rfl rfl rfl
  | @close e phase =>
    obtain ⟨tally, log, heq⟩ := m.close_eq n e
    rw [heq] at haside ⊢
    exact haside phase ⟨rfl, rfl, Or.inl rfl, fun _ => Or.inl rfl⟩ rfl rfl rfl

theorem codeStep_of_producer {m m' : Machine α} (hj : m.Judged m.producer)
    (h : ProducerStep m m') : CodeStep m m' .producer := by
  -- A phase in which no hook runs, after another.
  have hsilent {m₁ : Machine α} (arrivals : m₁.arrivals = m.arrivals) (scope : m₁.scope = m.scope)
      (supply : m₁.supplyClosed = m.supplyClosed) (old : m.producer.hook? = none)
      (new : m₁.producer.hook? = none) : m.Silent m₁ .producer :=
    ⟨arrivals, scope, Or.inl supply, fun _ => Or.inl (new.trans old.symm)⟩
  cases h with
  | startOn phase hact =>
    refine .hook (by rw [phase]; rfl) hact ⟨rfl, rfl, rfl⟩ ?_ rfl nofun
    obtain ⟨_, _, _, _, _, _, rfl⟩ := act_eq hact
    rfl
  | finishOn phase hact =>
    refine .hook (by rw [phase]; rfl) hact ⟨rfl, rfl, rfl⟩ ?_ rfl nofun
    obtain ⟨_, _, _, _, _, _, rfl⟩ := act_eq hact
    rfl
  | @startEnd a outcome m₁ phase hact =>
    have hworkers := act_workers hact
    have hphase : m.producer.hook? = some (.start, a) := by rw [phase]; rfl
    cases outcome <;> exact .hook hphase hact ⟨rfl, rfl, rfl⟩ hworkers rfl fun _ => rfl
  | @finishEnd a outcome m₁ phase hact =>
    have hworkers := act_workers hact
    have hphase : m.producer.hook? = some (.finish, a) := by rw [phase]; rfl
    cases outcome <;> exact .hook hphase hact ⟨rfl, rfl, rfl⟩ hworkers rfl fun _ => rfl
  | ask phase =>
    have hold : m.producer.hook? = none := by rw [phase]; rfl
    unfold askTicket askGate
    split
    · exact .still (hsilent rfl rfl rfl hold hold) rfl
    all_goals exact .still (hsilent rfl rfl rfl hold rfl) rfl
  | check phase =>
    have hold : m.producer.hook? = none := by rw [phase]; rfl
    unfold check
    split
    all_goals exact .still (hsilent rfl rfl rfl hold rfl) rfl
  | @hand item phase =>
    have hold : m.producer.hook? = none := by rw [phase]; rfl
    rcases m.hand_cases item with ⟨-, heq⟩ | ⟨-, heq⟩ | ⟨-, -, heq⟩
    all_goals
      rw [heq]
      exact .more (hsilent rfl rfl rfl hold rfl) phase rfl
  | keep phase | refusalCaptured phase | refusalLate phase | refusalCounted phase =>
    exact .still (hsilent rfl rfl rfl (by rw [phase]; rfl) rfl) rfl
  -- A task that the backend keeps runs on; only one it does not keep is dropped.
  | @dropPolled n w a phase worker verdict =>
    have hold : m.producer.hook? = none := by rw [phase]; rfl
    obtain ⟨lock, supply, tally, heq⟩ := lose_eq { m with producer := .dropping n } n a
    rw [heq]
    exact .aside (hsilent rfl rfl rfl hold rfl) worker rfl (Or.inr ⟨rfl, Or.inr verdict⟩)
  | dropQueued phase worker =>
    have hold : m.producer.hook? = none := by rw [phase]; rfl
    rw [phase] at hj
    exact .aside (hsilent rfl rfl rfl hold hold) worker rfl (Or.inr ⟨rfl, Or.inr hj⟩)
  | @answer n w e phase worker closing =>
    have hold : m.producer.hook? = none := by
      rcases phase with phase | ⟨phase, -⟩
      all_goals rw [phase]; rfl
    have hcode : (WorkerPhase.ended e : WorkerPhase α).code? w.item = w.code? ∧
        (WorkerPhase.ended e : WorkerPhase α).fate? = w.phase.fate? := by
      rw [Worker.code?, closing]
      exact ⟨rfl, rfl⟩
    rcases (m.setPhase n (.ended e)).verdictOf_cases n with ⟨-, heq⟩ | ⟨-, heq⟩
    all_goals
      rw [heq]
      exact .aside (hsilent rfl rfl rfl hold rfl) worker rfl (Or.inl hcode)
  | drain phase =>
    have hold : m.producer.hook? = none := by rw [phase]; rfl
    unfold askEverything askGate
    split
    · exact .still (hsilent rfl rfl rfl hold hold) rfl
    all_goals exact .still (hsilent rfl rfl rfl hold rfl) rfl
  | conclude phase =>
    have hold : m.producer.hook? = none := by rw [phase]; rfl
    unfold conclude
    split
    · exact .still (hsilent rfl rfl rfl hold rfl) rfl
    -- The finish hook begins, after the drain.
    · exact .still ⟨rfl, rfl, Or.inl rfl, fun _ => Or.inr ⟨phase, rfl⟩⟩ rfl

/-- A step runs the code of one worker, or that of a hook, or no code at all. Results on what code
does need only this, and not the many constructors of `Transition`. -/
theorem codeStep {m m' : Machine α} {move : Move α} (hj : m.Judged m.producer)
    (h : Transition m move m') : CodeStep m m' move := by
  cases h with
  | violation | start | submit | finish | abandonWait =>
      exact .still ⟨rfl, rfl, Or.inl rfl, nofun⟩ rfl
  | @abandonStart a | @abandonFinish a =>
    obtain ⟨tally, heq⟩ := m.forsakeHook_eq a
    rw [heq]
    exact .still ⟨rfl, rfl, Or.inl rfl, nofun⟩ rfl
  | producer hstep => exact codeStep_of_producer hj hstep
  | worker hw hstep => exact codeStep_of_worker hw hstep
  | @drop n w _ hw _ hstep =>
    cases hstep with
    | queued =>
      exact .aside ⟨rfl, rfl, Or.inl rfl, fun _ => Or.inl rfl⟩ hw rfl (Or.inr ⟨rfl, Or.inl rfl⟩)
    | @working a =>
      obtain ⟨lock, supply, tally, heq⟩ := m.lose_eq n a
      rw [heq]
      exact .aside ⟨rfl, rfl, Or.inl rfl, fun _ => Or.inl rfl⟩ hw rfl (Or.inr ⟨rfl, Or.inl rfl⟩)
  | cancel => exact .still ⟨rfl, rfl, Or.inl rfl, nofun⟩ rfl
  | world _ _ _ _ _ kept => exact .still ⟨rfl, rfl, kept, fun _ => Or.inl rfl⟩ rfl

/-! ## Code stays steady -/

/-- All code that workers have ahead of them is of this kind, that of a worker which has not begun
included (`WorkerPhase.code?`). -/
def EachCode (m : Machine α) (P : Action α → Prop) : Prop :=
  ∀ (n : Nat) (w : Worker α) (a : Activity α),
    m.workers[n]? = some w → w.code? = some a → a.All P

section

variable {m m' : Machine α} {move : Move α} {scope : Scope} {opened : Bool}

theorem Silent.steady (hs : m.Silent m' move) (h : m.Steady scope opened)
    (hsupply : opened = true → move ≠ .closeSupply) : m'.Steady scope opened := by
  refine ⟨by rw [hs.scope]; exact h.facts, fun ho => ?_⟩
  rcases hs.supply with heq | heq
  · rw [heq]
    exact h.supply ho
  · exact absurd heq (hsupply ho)

theorem Traces.steady {m₁ : Machine α} (ht : m₁.Traces m') (h : m₁.Steady scope opened) :
    m'.Steady scope opened :=
  ⟨by rw [ht.scope]; exact h.facts, fun ho => by rw [ht.supply]; exact h.supply ho⟩

theorem Steady.step (h : m.Steady scope opened) (hs : CodeStep m m' move)
    (hsupply : opened = true → move ≠ .closeSupply) : m'.Steady scope opened := by
  cases hs with
  | still silent | more silent | aside silent => exact silent.steady h hsupply
  | worker _ _ act traces | hook _ act traces => exact traces.steady (act_steady act h)

theorem EachCode.step {P : Action α → Prop} (h : m.EachCode P) (hs : CodeStep m m' move)
    (hitem : ∀ item, m.producer = .handing item → ∀ action ∈ item.script, P action) :
    m'.EachCode P := by
  intro k w' b hw' hb
  cases hs with
  | still _ workers =>
    rw [workers] at hw'
    exact h k w' b hw' hb
  | more _ phase workers =>
    rw [workers] at hw'
    rcases getElem?_concat_cases hw' with ⟨-, rfl⟩ | hw'
    · cases hb
      exact ⟨hitem _ phase, nofun⟩
    · exact h k w' b hw' hb
  | aside _ worker workers code =>
    rw [workers] at hw'
    rcases worker_of_setPhase worker hw' with ⟨rfl, rfl⟩ | ⟨-, hw'⟩
    · rcases code with ⟨hcode, -⟩ | ⟨hnone, -⟩
      · exact h k _ b worker (hcode.symm.trans hb)
      · cases hnone.symm.trans hb
    · exact h k w' b hw' hb
  | @worker n w a p m₁ worker phase act _ workers =>
    rw [workers] at hw'
    rcases worker_of_setPhase worker hw' with ⟨rfl, rfl⟩ | ⟨-, hw'⟩
    · rw [Worker.code?, Progress.phase_code?] at hb
      cases p with
      | going a' =>
        obtain rfl : a' = b := Option.some.inj hb
        exact act_all act (h k w a worker (by rw [Worker.code?, phase]; rfl))
      | «over» => cases hb
    · exact h k w' b hw' hb
  | hook _ _ _ workers =>
    rw [workers] at hw'
    exact h k w' b hw' hb

theorem CodeStep.supply_eq (hs : CodeStep m m' move) :
    m'.supplyClosed = m.supplyClosed ∨ move = .closeSupply := by
  cases hs with
  | still silent | more silent | aside silent => exact silent.supply
  | worker _ _ act traces | hook _ act traces =>
    refine Or.inl (traces.supply.trans ?_)
    obtain ⟨_, _, _, _, _, _, rfl⟩ := act_eq act
    rfl

/-- The code of workers asks for permits only if the supply stays open, and then it is open. This is
what `actStep` asks for. -/
structure Supplied (m : Machine α) (opened : Bool) : Prop where
  supply : opened = true → m.supplyClosed = false
  code : m.EachCode (Action.IsSupplied opened)

theorem Supplied.step (h : m.Supplied opened) (hs : CodeStep m m' move)
    (hsupply : opened = true → move ≠ .closeSupply)
    (hitem : ∀ item, m.producer = .handing item → ∀ action ∈ item.script,
      action.IsSupplied opened) : m'.Supplied opened where
  supply := fun ho => (hs.supply_eq.resolve_right (hsupply ho)).trans (h.supply ho)
  code := h.code.step hs hitem

theorem Supplied.carriesOut (h : m.Supplied opened) {n : Nat} {w : Worker α} {a : Activity α}
    {p : Progress α} {m₁ : Machine α} (hw : m.workers[n]? = some w) (hp : w.phase = .working a)
    (hact : m.act (.worker n w.item) a = (m₁, p)) : CarriesOut m m₁ (.worker n w.item) a p :=
  act_carriesOut hact h.supply fun _ => h.code n w a hw (by rw [Worker.code?, hp]; rfl)

end

/-! ## Workers that never begin -/

def AboutToDrop (m : Machine α) (n : Nat) : Prop :=
  m.producer = .dropping n ∧ ∃ w, m.workers[n]? = some w ∧ w.phase = .queued

/-- The workers whose items the backend refuses never begin, and all the others do. So of the items
that were handed over, just those with the verdict `run` leave something behind. -/
structure Barred (m : Machine α) : Prop where
  refused : ∀ n, n < m.workers.length → m.verdict n ≠ .run → m.AboutToDrop n ∨ m.IsUnstarted n
  kept : ∀ n, m.IsUnstarted n → m.verdict n ≠ .run

variable {m m' : Machine α} {move : Move α} {n : Nat}

/-- A task that is about to be dropped does not begin before it is: until then the call of the
producer has it in hand (`Machine.isLent`). -/
theorem AboutToDrop.step (h : m.AboutToDrop n) (ht : Transition m move m') :
    m'.AboutToDrop n ∨ m'.IsUnstarted n := by
  obtain ⟨hp, w, hw, hqueued⟩ := h
  -- The worker itself: it is still queued, or it has been dropped.
  have hworker : (∃ w', m'.workers[n]? = some w' ∧ w'.phase = .queued) ∨ m'.IsUnstarted n := by
    cases workersStep ht with
    | same workers => exact Or.inl ⟨w, by rw [workers]; exact hw, hqueued⟩
    | more _ workers => exact Or.inl ⟨w, by rw [workers]; exact getElem?_append_of_some hw _, hqueued⟩
    | @change k wk p worker workers how =>
      by_cases hk : n = k
      · subst hk
        obtain rfl : wk = w := Option.some.inj (worker.symm.trans hw)
        rw [hqueued] at how
        cases how with
        | begin kept =>
          simp only [isDropped, hp] at kept
          simp at kept
        | unstarted => exact Or.inr ⟨_, by rw [workers]; exact setPhase_self hw _, rfl⟩
      · exact Or.inl ⟨w, by rw [workers, setPhase_other hk p]; exact hw, hqueued⟩
  rcases hworker with hworker | hdropped
  · refine Or.inl ⟨?_, hworker⟩
    rcases same_or_producerStep ht (by rw [hp]; nofun) (by simp only [abandon, hp]) with
      hsame | hstep
    · exact hsame.producer.trans hp
    · cases hstep with
      | dropQueued => exact hp
      | @answer k wk e phase worker closing =>
        obtain rfl : k = n := by
          rw [hp] at phase
          rcases phase with phase | ⟨phase, -⟩ <;> cases phase
          rfl
        rw [Option.some.inj (worker.symm.trans hw), hqueued] at closing
        cases closing
      | _ =>
        rename m.producer = _ => phase
        rw [hp] at phase
        cases phase
  · exact Or.inr hdropped

/-- Another worker means that an item has been handed over, in the step before. -/
theorem hand_of_more (ht : Transition m move m') (hmore : m.workers.length < m'.workers.length) :
    ∃ item, m.producer = .handing item ∧ m' = m.hand item := by
  cases workersStep ht with
  | same workers => exact absurd hmore (by rw [workers]; exact Nat.lt_irrefl _)
  | change _ workers => exact absurd hmore (by rw [workers, length_setPhase]; exact Nat.lt_irrefl _)
  | @more item phase workers =>
    refine ⟨item, phase, (handing_step ht phase).resolve_left fun hsame => ?_⟩
    have hlength := congrArg List.length hsame.items
    simp only [items, List.length_map] at hlength
    omega

theorem Barred.new (setup : Setup α) (scope : Scope) : (Machine.new setup scope).Barred where
  refused := fun _ hn => absurd hn (Nat.not_lt_zero _)
  kept := fun _ ⟨_, hw, _⟩ => by cases hw

theorem Barred.step (h : m.Barred) (ht : Transition m move m') (hkept : ∀ k, move ≠ .drop k)
    (hfaithful : m.setup.backend.IsFaithful) (hj : m.Judged m.producer) (ha : m.Accounted)
    (hnumbered : m.dispatched = m.workers.length) : m'.Barred := by
  have hverdict (k : Nat) : m'.verdict k = m.verdict k := by
    rw [verdict, (cellStep ht).2.setup]
    rfl
  refine ⟨fun k hk hv => ?_, fun k hk => ?_⟩
  · rw [hverdict] at hv
    by_cases hold : k < m.workers.length
    · rcases h.refused k hold hv with hdrop | ⟨w, hw, hend⟩
      · exact hdrop.step ht
      · exact Or.inr (ending_step ht hw hend)
    -- A new worker: its item has just been handed over, and is refused.
    · obtain ⟨item, phase, rfl⟩ := hand_of_more ht (by omega)
      have hlength := m.length_hand item
      obtain rfl : k = m.dispatched := by omega
      rcases m.hand_cases item with ⟨hpolled, -⟩ | ⟨hrun, -⟩ | ⟨-, -, heq⟩
      · rcases hfaithful m.dispatched with hrun | ⟨-, huntouched⟩
        · exact absurd hrun hv
        · rw [hpolled] at huntouched
          cases huntouched
      · exact absurd hrun hv
      · rw [heq]
        refine Or.inl ⟨rfl, ⟨item, .queued⟩, ?_, rfl⟩
        rw [hnumbered]
        exact List.getElem?_concat_length
  · rw [hverdict]
    rcases unstarted_step ht ha hk with hold | ⟨-, rfl | ⟨-, hp⟩⟩
    · exact h.kept k hold
    · exact absurd rfl (hkept k)
    · rw [hp] at hj
      exact hj

end Machine

end WorkBundle
