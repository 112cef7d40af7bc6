import WorkBundle.Proofs.Lifecycle
import WorkBundle.Proofs.OneFailure

/-!
# What a failure tells of

A failure is made at one moment of a run, and from then on it is only passed on: from the worker to
the cell, or from the refusal of the backend to the answer of a submission. `Mishap` lists what can
happen to an item at such a moment, each with the cause that is given for it; `Arises` says that a
failure is made by a move, and is about the item that the move is about.

So wherever a failure is found, the run has a moment at which it arose, with the number that it
carries and the cause that it gives (`Explained`).
-/

set_option autoImplicit false

namespace WorkBundle

variable {α : Type}

namespace Machine

variable {m m' : Machine α} {move : Move α} {n : Nat} {w : Worker α} {f : Failure}

/-! ## Where a failure comes from -/

/-- What this move does to the item with this number, with the cause that is given for it.
`unstarted` has no case here: a task that is dropped before it has begun makes no failure. -/
inductive Mishap (m : Machine α) (move : Move α) (n : Nat) : Cause → Prop
  | failed {w : Worker α} {a : Activity α} {m₁ : Machine α} {cause : Cause}
      (own : move = .worker n) (worker : m.workers[n]? = some w) (phase : w.phase = .working a)
      (act : m.act (.worker n w.item) a = (m₁, .over (.failed cause))) : Mishap m move n cause
  | panicked {w : Worker α} {a : Activity α} {m₁ : Machine α} (own : move = .worker n)
      (worker : m.workers[n]? = some w) (phase : w.phase = .working a)
      (act : m.act (.worker n w.item) a = (m₁, .over .panicked)) : Mishap m move n (.lost n)
  | dropped {w : Worker α} {a : Activity α} (worker : m.workers[n]? = some w)
      (phase : w.phase = .working a)
      (how : move = .drop n ∨
        move = .producer ∧ m.producer = .polling n ∧ m.verdict n ≠ .run) :
      Mishap m move n (.lost n)
  | refused {w : Worker α} {e : Ending} (own : move = .producer)
      (worker : m.workers[n]? = some w) (phase : w.phase = .closing e)
      (held : m.producer = .dropping n ∨ m.producer = .polling n)
      (verdict : m.verdict n = .refuse) :
      Mishap m move n (.execution (.backend n m.setup.backend.reason))

theorem Mishap.lt {cause : Cause} (h : Mishap m move n cause) : n < m.workers.length := by
  cases h with
  | failed _ worker | panicked _ worker | dropped worker | refused _ worker =>
    exact (List.getElem?_eq_some_iff.mp worker).1

/-- The failure is made by this move: it gets the next identity (`minted`), the number of the item
that the move is about, and the cause of its `Mishap`. -/
def Arises (m : Machine α) (move : Move α) (f : Failure) : Prop :=
  m.minted = f.identity ∧ m.Mishap move f.item f.cause

/-- The failure is captured, or `pending?` with a worker or with the producer. A failure is nowhere
else until it is answered, so `carries_step` closes the chain from each answer back to a move. -/
def Carries (m : Machine α) (f : Failure) : Prop :=
  m.cell.captured = some f ∨
    (∃ (n : Nat) (w : Worker α), m.workers[n]? = some w ∧ w.phase.pending? = some f) ∨
    m.producer.pending? = some f

/-! ## What a step adds -/

/-- A failure that is `pending?` in the new phase was so in the old one, or it `Arises` by this
move. -/
def PassesOn (m : Machine α) (move : Move α) (old new : WorkerPhase α) : Prop :=
  ∀ f, new.pending? = some f → old.pending? = some f ∨ m.Arises move f

theorem passesOn_of_none {p q : WorkerPhase α} (h : q.pending? = none) : m.PassesOn move p q := by
  intro f hf
  rw [h] at hf
  cases hf

theorem carries_of_setPhase {p : WorkerPhase α} (hw : m.workers[n]? = some w)
    (hworkers : m'.workers = (m.setPhase n p).workers) (hp : m.PassesOn move w.phase p) {k : Nat}
    {w' : Worker α} (hw' : m'.workers[k]? = some w') (hf : w'.phase.pending? = some f) :
    m.Carries f ∨ m.Arises move f := by
  rw [hworkers] at hw'
  rcases worker_of_setPhase hw hw' with ⟨rfl, rfl⟩ | ⟨-, hw'⟩
  · apply (hp f hf).imp_left
    intro hold
    exact Or.inr (Or.inl ⟨k, w, hw, hold⟩)
  · exact Or.inl (Or.inr (Or.inl ⟨k, w', hw', hf⟩))

theorem passesOn_of_worker (hw : m.workers[n]? = some w) (h : WorkerStep m n w m') :
    ∃ p, m'.workers = (m.setPhase n p).workers ∧ m.PassesOn (.worker n) w.phase p := by
  cases h with
  | begin => exact ⟨_, rfl, passesOn_of_none rfl⟩
  | goOn _ _ hact =>
    obtain ⟨_, _, _, _, _, _, rfl⟩ := act_eq hact
    exact ⟨_, rfl, passesOn_of_none rfl⟩
  -- The one step by which a worker makes a failure.
  | @finish a outcome m₁ phase _ hact =>
    have hminted : m₁.minted = m.minted := by
      obtain ⟨_, _, _, _, _, _, rfl⟩ := act_eq hact
      rfl
    refine ⟨_, finish_workers hact n, ?_⟩
    rw [hminted]
    intro f hf
    cases outcome with
    | returned => cases hf
    | failed cause =>
      cases hf
      exact Or.inr ⟨rfl, .failed rfl hw phase hact⟩
    | panicked =>
      cases hf
      exact Or.inr ⟨rfl, .panicked rfl hw phase hact⟩
  | @offer g e phase =>
    rcases m.offer_cases n g e with ⟨-, heq⟩ | ⟨_, -, heq⟩
    · rw [heq]
      exact ⟨_, rfl, passesOn_of_none rfl⟩
    · rw [heq]
      refine ⟨_, rfl, ?_⟩
      intro f hf
      rw [phase]
      exact Or.inl hf
  | count => exact ⟨_, rfl, passesOn_of_none rfl⟩
  | leave => exact ⟨_, rfl, passesOn_of_none rfl⟩
  | @close e =>
    obtain ⟨tally, log, heq⟩ := m.close_eq n e
    rw [heq]
    exact ⟨_, rfl, passesOn_of_none rfl⟩

theorem passesOn_of_lose {a : Activity α} (hw : m.workers[n]? = some w)
    (phase : w.phase = .working a) (how : move = .drop n ∨
      move = .producer ∧ m.producer = .polling n ∧ m.verdict n ≠ .run) :
    m.PassesOn move w.phase (.offering ⟨n, m.minted, .lost n⟩ .lost) := by
  intro f hf
  cases hf
  exact Or.inr ⟨rfl, .dropped hw phase how⟩

theorem passesOn_of_drop (hw : m.workers[n]? = some w) (h : TaskDrop m n w m') :
    ∃ p, m'.workers = (m.setPhase n p).workers ∧ m.PassesOn (.drop n) w.phase p := by
  cases h with
  | queued => exact ⟨_, rfl, passesOn_of_none rfl⟩
  | working phase =>
    exact ⟨_, (m.lose_workers n _).1, passesOn_of_lose hw phase (Or.inl rfl)⟩

theorem carries_of_producer (h : ProducerStep m m') {k : Nat} {w' : Worker α}
    (hw' : m'.workers[k]? = some w') (hf : w'.phase.pending? = some f) :
    m.Carries f ∨ m.Arises .producer f := by
  have hsame (hworkers : m'.workers = m.workers) : m.Carries f ∨ m.Arises .producer f := by
    rw [hworkers] at hw'
    exact Or.inl (Or.inr (Or.inl ⟨k, w', hw', hf⟩))
  cases h with
  | startOn _ hact | finishOn _ hact =>
    obtain ⟨_, _, _, _, _, _, rfl⟩ := act_eq hact
    exact hsame rfl
  | @startEnd _ outcome _ _ hact | @finishEnd _ outcome _ _ hact =>
    obtain ⟨_, _, _, _, _, _, rfl⟩ := act_eq hact
    cases outcome <;> exact hsame rfl
  | ask =>
    apply hsame
    unfold askTicket askGate
    split <;> rfl
  | drain =>
    apply hsame
    unfold askEverything askGate
    split <;> rfl
  | check =>
    apply hsame
    unfold check
    split <;> rfl
  | conclude =>
    apply hsame
    unfold conclude
    split <;> rfl
  | keep | refusalCaptured | refusalLate | refusalCounted => exact hsame rfl
  | @hand item =>
    have hmore : (m.hand item).workers = m.workers ++ [⟨item, .queued⟩] := by
      rcases m.hand_cases item with ⟨-, heq⟩ | ⟨-, heq⟩ | ⟨-, -, heq⟩
      all_goals
        rw [heq]
        rfl
    rw [hmore] at hw'
    rcases getElem?_concat_cases hw' with ⟨-, rfl⟩ | hw'
    · cases hf
    · exact Or.inl (Or.inr (Or.inl ⟨k, w', hw', hf⟩))
  | @dropPolled n w a phase worker verdict working =>
    apply carries_of_setPhase worker _ _ hw' hf
    · exact .offering ⟨n, m.minted, .lost n⟩ .lost
    · exact (lose_workers { m with producer := .dropping n } n a).1
    · exact passesOn_of_lose worker working (Or.inr ⟨rfl, phase, verdict⟩)
  | dropQueued _ worker =>
    exact carries_of_setPhase worker rfl (passesOn_of_none rfl) hw' hf
  | @answer n w e _ worker =>
    rcases (m.setPhase n (.ended e)).verdictOf_cases n with ⟨-, heq⟩ | ⟨-, heq⟩
    all_goals
      rw [heq] at hw'
      exact carries_of_setPhase worker rfl (passesOn_of_none rfl) hw' hf

theorem refusal_of_producer (h : ProducerStep m m') (hf : m'.producer.pending? = some f) :
    m.producer.pending? = some f ∨ m.Arises .producer f := by
  cases h with
  | startOn | finishOn | keep | refusalCaptured | refusalCounted => cases hf
  | @startEnd _ outcome | @finishEnd _ outcome => cases outcome <;> cases hf
  | ask =>
    unfold askTicket askGate at hf
    split at hf
    · exact Or.inl hf
    all_goals cases hf
  | drain =>
    unfold askEverything askGate at hf
    split at hf
    · exact Or.inl hf
    all_goals cases hf
  | check =>
    unfold check at hf
    split at hf <;> cases hf
  | conclude =>
    unfold conclude at hf
    split at hf <;> cases hf
  | @hand item =>
    rcases m.hand_cases item with ⟨-, heq⟩ | ⟨-, heq⟩ | ⟨-, -, heq⟩
    all_goals
      rw [heq] at hf
      cases hf
  | @dropPolled n w a =>
    rw [(SameCall.lose { m with producer := .dropping n } n a).producer] at hf
    cases hf
  | dropQueued => exact Or.inl hf
  | refusalLate phase =>
    rw [phase]
    exact Or.inl hf
  | @answer n w e phase worker closing =>
    rcases (m.setPhase n (.ended e)).verdictOf_cases n with ⟨hrefuse, heq⟩ | ⟨-, heq⟩
    · rw [heq] at hf
      cases hf
      exact Or.inr ⟨rfl, .refused rfl worker closing (phase.imp_right And.left) hrefuse⟩
    · rw [heq] at hf
      cases hf

/-- Every failure that is there after a step was there before it, or `Arises` by it. `Explains` is
this lemma along a run. -/
theorem carries_step (h : Transition m move m') (hf : m'.Carries f) :
    m.Carries f ∨ m.Arises move f := by
  have hsame (hcarries : m.Carries f) : m.Carries f ∨ m.Arises move f := Or.inl hcarries
  rcases hf with hcell | ⟨k, w', hw', hf⟩ | hf
  · apply hsame
    cases (cellStep h).1 with
    | same cell => exact Or.inl (cell ▸ hcell)
    | @worker n w g e _ worker phase full =>
      obtain rfl : g = f := Option.some.inj (full.symm.trans hcell)
      exact Or.inr (Or.inl ⟨n, w, worker, by rw [phase]; rfl⟩)
    | @refusal g _ phase _ full =>
      obtain rfl : g = f := Option.some.inj (full.symm.trans hcell)
      exact Or.inr (Or.inr (by rw [phase]; rfl))
  · have hold (hworkers : m'.workers = m.workers) : m.Carries f ∨ m.Arises move f := by
      rw [hworkers] at hw'
      exact hsame (Or.inr (Or.inl ⟨k, w', hw', hf⟩))
    cases h with
    | violation | start | submit | finish | abandonWait | cancel | world => exact hold rfl
    | @abandonStart a | @abandonFinish a =>
      obtain ⟨tally, heq⟩ := m.forsakeHook_eq a
      have hworkers : (m.forsakeHook a).workers = m.workers := by rw [heq]
      exact hold hworkers
    | producer hstep => exact carries_of_producer hstep hw' hf
    | worker worker hstep =>
      obtain ⟨p, hworkers, hp⟩ := passesOn_of_worker worker hstep
      exact carries_of_setPhase worker hworkers hp hw' hf
    | drop worker _ hstep =>
      obtain ⟨p, hworkers, hp⟩ := passesOn_of_drop worker hstep
      exact carries_of_setPhase worker hworkers hp hw' hf
  · have hold (hproducer : m'.producer = m.producer) : m.Carries f ∨ m.Arises move f := by
      rw [hproducer] at hf
      exact hsame (Or.inr (Or.inr hf))
    cases h with
    | violation | start | submit | finish | abandonStart | abandonWait | abandonFinish => cases hf
    | producer hstep =>
      apply (refusal_of_producer hstep hf).imp_left
      intro hpending
      exact Or.inr (Or.inr hpending)
    | worker _ hstep => exact hold (SameCall.of_worker hstep).producer
    | drop _ _ hstep => exact hold (SameCall.of_drop hstep).producer
    | cancel | world => exact hold rfl

/-! ## The whole run -/

/-- The failure is about an item that was handed over, and the run has the move by which it
`Arises`. -/
def Explained (m₀ : Machine α) (moves : List (Move α)) (m : Machine α) (f : Failure) : Prop :=
  f.item < m.dispatched ∧ m₀.Happens moves fun m move => m.Arises move f

/-- Every failure that the engine `Carries`, or that a call was answered with, is `Explained`. The
second needs a field of its own, since answers outlive the cell they were read from. -/
structure Explains (m₀ : Machine α) (moves : List (Move α)) (m : Machine α) : Prop where
  carried : ∀ f, m.Carries f → m₀.Explained moves m f
  returned : ∀ c r f, (c, r) ∈ m₀.exchanges moves → r.failure? = some f → m₀.Explained moves m f

theorem dispatched_mono {current : Option (Call α)} (hord : m.Orderly current)
    (ht : Transition m move m') : m.dispatched ≤ m'.dispatched := by
  have hitems := (hord.step ht).numbered
  have hbefore := hord.numbered
  cases workersStep ht with
  | same workers =>
    rw [workers] at hitems
    omega
  | more _ workers =>
    rw [workers, List.length_append] at hitems
    omega
  | change _ workers =>
    rw [workers, setPhase, List.length_modify] at hitems
    omega

theorem Explained.concat {m₀ : Machine α} {moves : List (Move α)} (h : m₀.Explained moves m f)
    (hrun : m₀.run moves = some m) (hle : m.dispatched ≤ m'.dispatched) :
    m₀.Explained (moves ++ [move]) m' f := by
  obtain ⟨hlt, harises⟩ := h
  exact ⟨by omega, (happens_concat hrun).mpr (Or.inl harises)⟩

theorem Explains.step {m₀ : Machine α} {moves : List (Move α)} (h : m₀.Explains moves m)
    (hord : m.Orderly (lastCall none moves)) (hrun : m₀.run moves = some m)
    (hstep : m.step move = some m') : m₀.Explains (moves ++ [move]) m' := by
  have ht := transition_of_step hstep
  have hle := dispatched_mono hord ht
  have hcarried (f : Failure) (hf : m'.Carries f) : m₀.Explained (moves ++ [move]) m' f := by
    rcases carries_step ht hf with hold | hnew
    · exact (h.carried f hold).concat hrun hle
    · have hlt := hnew.2.lt
      rw [← hord.numbered] at hlt
      exact ⟨by omega, (happens_concat hrun).mpr (Or.inr hnew)⟩
  refine ⟨hcarried, ?_⟩
  intro c r f hmem hr
  rw [exchanges_concat hrun hstep] at hmem
  rcases List.mem_append.mp hmem with hmem | hmem
  · exact (h.returned c r f hmem hr).concat hrun hle
  · cases callStep ht with
    | goesOn replies =>
      rw [answered_of_replies_eq replies] at hmem
      cases hmem
    | ends replies _ _ how =>
      obtain ⟨-, rfl⟩ := (mem_answered replies).mp hmem
      rcases failure_of_end ht how hr with hcell | hp
      · exact hcarried f (Or.inl hcell)
      · have hpending : m.Carries f := Or.inr (Or.inr (by rw [hp]; rfl))
        exact (h.carried f hpending).concat hrun hle

theorem explains {setup : Setup α} {scope : Scope} {moves : List (Move α)}
    (hrun : (Machine.new setup scope).run moves = some m) :
    (Machine.new setup scope).Explains moves m := by
  refine run_induction ?_ (fun hrun h hstep => h.step (drains hrun).orderly hrun hstep) hrun
  refine ⟨?_, ?_⟩
  · rintro f (hf | ⟨n, w, hw, -⟩ | hf)
    · cases hf
    · cases hw
    · cases hf
  · intro c r f hmem
    cases hmem

end Machine

end WorkBundle
