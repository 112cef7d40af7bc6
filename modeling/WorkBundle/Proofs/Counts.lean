import WorkBundle.Proofs.Calls

/-!
# What an observer counts

The counts of an engine agree with its workers: as many tasks were offered to the backend as there
are workers, and as many elements count as in progress as there are workers at work on one.
`CountStep` says how one step moves the two counts together, and `Counted` that they agree in every
state.
-/

set_option autoImplicit false

namespace WorkBundle

variable {α : Type}

def WorkerPhase.isWorking : WorkerPhase α → Bool
  | .working _ => true
  | _ => false

namespace Machine

/-- Which workers are at work, by their numbers. `Tally.bodies` counts entries and exits of element
code, and `Counted` ties its running count to this list. -/
def atWork (ws : List (Worker α)) : List Bool := marks WorkerPhase.isWorking ws

/-! ## Code does not count itself -/

def SameCounts (m m' : Machine α) : Prop :=
  m'.tally.bodies = m.tally.bodies ∧ m'.tally.submitted = m.tally.submitted

theorem sameCounts_act {m m₁ : Machine α} {owner : Owner α} {a : Activity α} {p : Progress α}
    (h : m.act owner a = (m₁, p)) : SameCounts m m₁ := by
  obtain ⟨_, _, _, _, _, _, _, _, rfl⟩ := act_touches h
  exact ⟨rfl, rfl⟩

theorem tasksFailed_act {m m₁ : Machine α} {owner : Owner α} {a : Activity α} {p : Progress α}
    (h : m.act owner a = (m₁, p)) : m₁.tally.tasksFailed = m.tally.tasksFailed := by
  obtain ⟨_, _, _, _, _, _, _, _, rfl⟩ := act_touches h
  rfl

/-! ## What a step counts -/

/-- How the counts of an engine move in one step, with the workers they are about. An element that
has `begun` is always left once, be it by its end or by `lose`, which is what makes the running
count exact. -/
inductive CountStep (m m' : Machine α) : Prop
  | still (counts : SameCounts m m') (workers : atWork m'.workers = atWork m.workers)
  | begun {n : Nat} (before : (atWork m.workers)[n]? = some false)
      (workers : atWork m'.workers = (atWork m.workers).set n true)
      (bodies : m'.tally.bodies = m.tally.bodies.enter)
      (submitted : m'.tally.submitted = m.tally.submitted)
  | ended {n : Nat} (before : (atWork m.workers)[n]? = some true)
      (workers : atWork m'.workers = (atWork m.workers).set n false)
      (active : m'.tally.bodies.active = m.tally.bodies.active - 1)
      (most : m'.tally.bodies.maxActive = m.tally.bodies.maxActive)
      (submitted : m'.tally.submitted = m.tally.submitted)
  | handed (workers : atWork m'.workers = atWork m.workers ++ [false])
      (bodies : m'.tally.bodies = m.tally.bodies)
      (submitted : m'.tally.submitted = m.tally.submitted + 1)

theorem atWork_of_worker {m : Machine α} {n : Nat} {w : Worker α} {p : WorkerPhase α}
    (hw : m.workers[n]? = some w) (phase : w.phase = p) :
    (atWork m.workers)[n]? = some p.isWorking := by
  rw [atWork, marks_getElem? _ hw, phase]

theorem countStep_of_lose {m : Machine α} {n : Nat} {w : Worker α} (hw : m.workers[n]? = some w)
    {a : Activity α} (phase : w.phase = .working a) (p : Phase α) :
    CountStep m ({ m with producer := p }.lose n a) := by
  refine .ended (atWork_of_worker hw phase) ?_ ?_ ?_ ?_
  · obtain ⟨lock, supply, tally, heq⟩ := lose_eq { m with producer := p } n a
    rw [heq]
    exact marks_setPhase _ hw _
  all_goals
    unfold lose
    cases a.emitting with
    | none => cases a.wait <;> rfl
    | some emitting => cases emitting <;> cases a.wait <;> rfl

theorem countStep_of_worker {m m' : Machine α} {n : Nat} {w : Worker α}
    (hw : m.workers[n]? = some w) (h : WorkerStep m n w m') : CountStep m m' := by
  have hstill {m₁ : Machine α} {p q : WorkerPhase α} (phase : w.phase = q)
      (hworkers : m₁.workers = (m.setPhase n p).workers) (hp : p.isWorking = q.isWorking)
      (hcounts : SameCounts m m₁) : CountStep m m₁ := by
    refine .still hcounts ?_
    rw [hworkers]
    exact marks_keep _ hw (by rw [hp, phase])
  cases h with
  | begin phase => exact .begun (atWork_of_worker hw phase) (marks_setPhase _ hw _) rfl rfl
  | goOn phase _ hact =>
    have hcounts := sameCounts_act hact
    obtain ⟨_, _, _, _, _, _, rfl⟩ := act_eq hact
    exact hstill phase rfl rfl hcounts
  | @finish a outcome _ phase _ hact =>
    have hcounts := sameCounts_act hact
    obtain ⟨_, _, _, _, _, tally, rfl⟩ := act_eq hact
    obtain ⟨hbodies, hsubmitted⟩ := hcounts
    dsimp only at hbodies hsubmitted
    cases outcome
    all_goals
      refine .ended (atWork_of_worker hw phase) (marks_setPhase _ hw _) ?_ ?_ hsubmitted
      · show tally.bodies.active - 1 = _
        rw [hbodies]
      · show tally.bodies.maxActive = _
        rw [hbodies]
  | @offer f e phase =>
    rcases m.offer_cases n f e with ⟨-, heq⟩ | ⟨_, -, heq⟩
    all_goals
      rw [heq]
      exact hstill phase rfl rfl ⟨rfl, rfl⟩
  | count phase | leave phase => exact hstill phase rfl rfl ⟨rfl, rfl⟩
  | @close e phase =>
    refine hstill phase ?_ rfl ?_ (p := .ended e)
    · obtain ⟨tally, log, heq⟩ := m.close_eq n e
      rw [heq]
    · cases e with
      | failed f =>
        unfold close
        dsimp only
        split <;> exact ⟨rfl, rfl⟩
      | _ => exact ⟨rfl, rfl⟩

theorem countStep_of_producer {m m' : Machine α} (h : ProducerStep m m') : CountStep m m' := by
  have hsilent {m₁ : Machine α} (hcounts : SameCounts m m₁) (hworkers : m₁.workers = m.workers) :
      CountStep m m₁ := .still hcounts (by rw [hworkers])
  cases h with
  | startOn _ hact | finishOn _ hact =>
    have hcounts := sameCounts_act hact
    obtain ⟨_, _, _, _, _, _, rfl⟩ := act_eq hact
    exact hsilent hcounts rfl
  | @startEnd _ outcome _ _ hact | @finishEnd _ outcome _ _ hact =>
    have hcounts := sameCounts_act hact
    obtain ⟨_, _, _, _, _, _, rfl⟩ := act_eq hact
    cases outcome <;> exact hsilent hcounts rfl
  | ask =>
    unfold askTicket askGate
    split <;> exact hsilent ⟨rfl, rfl⟩ rfl
  | drain =>
    unfold askEverything askGate
    split <;> exact hsilent ⟨rfl, rfl⟩ rfl
  | check =>
    unfold check
    split <;> exact hsilent ⟨rfl, rfl⟩ rfl
  | conclude =>
    unfold conclude
    split <;> exact hsilent ⟨rfl, rfl⟩ rfl
  | @hand item =>
    have hworkers : atWork (m.enlist item).workers = atWork m.workers ++ [false] :=
      marks_concat _ _ _
    rcases m.hand_cases item with ⟨-, heq⟩ | ⟨-, heq⟩ | ⟨-, -, heq⟩
    all_goals
      rw [heq]
      exact .handed hworkers rfl rfl
  | keep | refusalCaptured | refusalLate | refusalCounted => exact hsilent ⟨rfl, rfl⟩ rfl
  | @dropPolled n w a _ worker _ working =>
    exact countStep_of_lose worker working _
  | dropQueued _ worker queued =>
    exact .still ⟨rfl, rfl⟩ (marks_keep _ worker (by rw [queued]; rfl))
  | @answer n w e _ worker closing =>
    have hkeep : atWork (m.setPhase n (.ended e)).workers = atWork m.workers :=
      marks_keep _ worker (by rw [closing]; rfl)
    rcases (m.setPhase n (.ended e)).verdictOf_cases n with ⟨-, heq⟩ | ⟨-, heq⟩
    all_goals
      rw [heq]
      exact .still ⟨rfl, rfl⟩ hkeep

theorem countStep {m m' : Machine α} {move : Move α} (h : Transition m move m') :
    CountStep m m' := by
  cases h with
  | violation | start | submit | finish | abandonWait | cancel | world =>
    exact .still ⟨rfl, rfl⟩ rfl
  | @abandonStart a | @abandonFinish a =>
    refine .still ?_ ?_
    · unfold forsakeHook
      split <;> exact ⟨rfl, rfl⟩
    · obtain ⟨tally, heq⟩ := m.forsakeHook_eq a
      show atWork (m.forsakeHook a).workers = _
      rw [heq]
  | producer hstep => exact countStep_of_producer hstep
  | worker hw hstep => exact countStep_of_worker hw hstep
  | drop hw _ hstep =>
    cases hstep with
    | queued phase => exact .still ⟨rfl, rfl⟩ (marks_keep _ hw (by rw [phase]; rfl))
    | working phase => exact countStep_of_lose hw phase m.producer

/-! ## The counts agree with the workers -/

/-- As many tasks were offered as there are workers, and as many elements are in progress as there
are workers `atWork`. -/
structure Counted (m : Machine α) : Prop where
  submitted : m.tally.submitted = m.workers.length
  active : m.tally.bodies.active = (atWork m.workers).countP id

namespace Counted

variable {m m' : Machine α}

theorem new (setup : Setup α) (scope : Scope) : (Machine.new setup scope).Counted :=
  ⟨rfl, rfl⟩

theorem step (h : m.Counted) {move : Move α} (ht : Transition m move m') : m'.Counted := by
  suffices h' : m'.tally.submitted = (atWork m'.workers).length ∧
      m'.tally.bodies.active = (atWork m'.workers).countP id from
    ⟨h'.1.trans (length_marks _ _), h'.2⟩
  have hsubmitted : m.tally.submitted = (atWork m.workers).length :=
    h.submitted.trans (length_marks _ _).symm
  have hactive := h.active
  cases countStep ht with
  | still counts workers =>
    rw [workers, counts.1, counts.2]
    exact ⟨hsubmitted, hactive⟩
  | begun before workers bodies submitted =>
    obtain ⟨hlt, hget⟩ := List.getElem?_eq_some_iff.mp before
    rw [workers, submitted, bodies, List.length_set, List.countP_set hlt, hget]
    refine ⟨hsubmitted, ?_⟩
    show m.tally.bodies.active + 1 = _
    rw [hactive]
    rfl
  | ended before workers active most submitted =>
    obtain ⟨hlt, hget⟩ := List.getElem?_eq_some_iff.mp before
    rw [workers, submitted, active, List.length_set, List.countP_set hlt, hget]
    exact ⟨hsubmitted, by rw [hactive]; rfl⟩
  | handed workers bodies submitted =>
    rw [workers, submitted, bodies, List.length_append, List.countP_append, hsubmitted, hactive]
    exact ⟨rfl, rfl⟩

theorem run (h : m.Counted) {moves : List (Move α)} (hrun : m.run moves = some m') : m'.Counted :=
  run_invariant (I := Counted) (fun h ht => h.step ht) h hrun

end Counted

theorem maxActive_step {m m' : Machine α} {move : Move α} (h : Transition m move m') :
    m'.tally.bodies.maxActive ≤ max m.tally.bodies.maxActive m'.tally.bodies.active := by
  cases countStep h with
  | still counts => rw [counts.1]; exact Nat.le_max_left _ _
  | begun _ _ bodies => rw [bodies]; exact Nat.le_refl _
  | ended _ _ _ most => rw [most]; exact Nat.le_max_left _ _
  | handed _ bodies => rw [bodies]; exact Nat.le_max_left _ _

theorem maxActive_mono {m m' : Machine α} {move : Move α} (h : Transition m move m') :
    m.tally.bodies.maxActive ≤ m'.tally.bodies.maxActive := by
  cases countStep h with
  | still counts => rw [counts.1]
  | begun _ _ bodies =>
    rw [bodies]
    exact Nat.le_max_left _ _
  | ended _ _ _ most => rw [most]
  | handed _ bodies => rw [bodies]

theorem active_le_maxActive {m m' : Machine α} {move : Move α} (h : Transition m move m')
    (hle : m.tally.bodies.active ≤ m.tally.bodies.maxActive) :
    m'.tally.bodies.active ≤ m'.tally.bodies.maxActive := by
  cases countStep h with
  | still counts =>
    rw [counts.1]
    exact hle
  | begun _ _ bodies =>
    rw [bodies]
    exact Nat.le_max_right _ _
  | ended _ _ active most =>
    rw [active, most]
    exact (Nat.sub_le _ _).trans hle
  | handed _ bodies =>
    rw [bodies]
    exact hle

/-- No more elements are ever in progress at once than were handed over. The number of
tickets bounds them as well, which is a matter of the gate and not of the counts. -/
theorem maxActive_le_submitted {m m' : Machine α} {move : Move α} (h : Transition m move m')
    (hcounted : m'.Counted) (hle : m.tally.bodies.maxActive ≤ m.tally.submitted) :
    m'.tally.bodies.maxActive ≤ m'.tally.submitted := by
  have hmost := maxActive_step h
  have hactive : m'.tally.bodies.active ≤ m'.tally.submitted := by
    rw [hcounted.active, hcounted.submitted, ← length_marks WorkerPhase.isWorking m'.workers]
    exact List.countP_le_length
  have hgrows : m.tally.submitted ≤ m'.tally.submitted := by
    cases countStep h with
    | still counts => exact Nat.le_of_eq counts.2.symm
    | begun _ _ _ submitted | ended _ _ _ _ submitted => exact Nat.le_of_eq submitted.symm
    | handed _ _ submitted =>
      rw [submitted]
      exact Nat.le_succ _
  omega

end Machine

end WorkBundle
