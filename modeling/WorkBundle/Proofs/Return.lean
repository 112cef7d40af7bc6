import WorkBundle.Proofs.Barrier
import WorkBundle.Proofs.Progress

/-!
# A bundle returns

A bundle whose code waits for nobody else comes to its result on every schedule, and on every
backend that does not drop what it has accepted. While it has none, it is never stuck
(`Run.GoesOn`): the producer or a worker can make a step, or else somebody sleeps, and when he wakes
up, there is a step. A step takes off work, of which the elements and the scripts hold a finite
amount; so whoever makes the next step, the bundle is nearer to its result (`Run.Returns`).
-/

set_option autoImplicit false

namespace WorkBundle

variable {α : Type}

namespace Machine

variable {m : Machine α} {n time : Nat}

inductive Sleeps (m : Machine α) (time : Nat) : Prop
  | worker {n : Nat} {w : Worker α} {a : Activity α} (worker : m.workers[n]? = some w)
      (phase : w.phase = .working a) (wait : a.wait = .clock time)
  | hook {hook : Hook} {a : Activity α} (hook : m.producer.hook? = some (hook, a))
      (wait : a.wait = .clock time)

theorem lent_of_isLent (h : m.isLent n = true) :
    m.producer = .polling n ∨ m.producer = .dropping n := by
  unfold isLent at h
  split at h
  · rename_i k hp
    exact Or.inl (by rw [hp, beq_iff_eq.mp h])
  · rename_i k hp
    exact Or.inr (by rw [hp, beq_iff_eq.mp h])
  · cases h

theorem rested_or_sleeps (m : Machine α) : m.Rested ∨ ∃ time, m.now < time ∧ m.Sleeps time := by
  by_cases hsleeps : ∃ time, m.now < time ∧ m.Sleeps time
  · exact Or.inr hsleeps
  · refine Or.inl ⟨fun n w a time hw hphase hwait => ?_, fun hook a time hp hwait => ?_⟩
    · exact Nat.le_of_not_lt fun hlt => hsleeps ⟨time, hlt, .worker hw hphase hwait⟩
    · exact Nat.le_of_not_lt fun hlt => hsleeps ⟨time, hlt, .hook hp hwait⟩

end Machine

namespace Run

variable {r r' r₁ : Run α} {move : Move α} {moves world : List (Move α)} {all : List (WorkItem α)}
  {time : Nat}

/-! ## Never stuck -/

def atTime (r : Run α) (time : Nat) : Run α := { r with machine := { r.machine with now := time } }

theorem step_clock (h : r.machine.now ≤ time) : r.step (.clock time) = some (r.atTime time) := by
  simp only [Run.step, Machine.step, h]
  rfl

/-- There is a step, or there is one when somebody wakes up who `Sleeps` now. -/
def GoesOn (r : Run α) : Prop :=
  r.CanStep ∨ ∃ time, r.machine.now < time ∧ r.machine.Sleeps time ∧
    ∃ r₁, r.step (.clock time) = some r₁ ∧ r₁.CanStep

/-- Who has slept until the time has come goes on, unless there was a step before: the call that is
`polling` a task does not wait for a sleeping one. -/
theorem Live.wakes (h : r.Live all) (hsleeps : r.machine.Sleeps time) :
    r.CanStep ∨ (r.atTime time).CanStep := by
  cases hsleeps with
  | @worker n w a hw hphase hwait =>
    cases hlent : r.machine.isLent n with
    | true =>
      have hgoes : r.machine.stepProducer.isSome = true ∨
          (r.machine.stepWorker n).isSome = true := by
        rcases Machine.lent_of_isLent hlent with hp | hp
        · exact Machine.polled_goes h.lent hp
        · exact Machine.dropped_goes h.lent hp
      have hbusy : r.machine.isBusy = true := by
        rcases Machine.lent_of_isLent hlent with hp | hp <;> rw [Machine.isBusy, hp]
      exact Or.inl (hgoes.elim (canStep_of_producer hbusy) canStep_of_worker)
    | false =>
      have hawake : (r.atTime time).machine.awake n a.wait = true := by
        rw [hwait]
        exact decide_eq_true (Nat.le_refl time)
      have hlent' : (r.atTime time).machine.isLent n = false := hlent
      refine Or.inr (canStep_of_worker (Machine.working_goes hw hphase ?_))
      rw [hlent', hawake]
      rfl
  | @hook hook a hp hwait =>
    have hawake : (r.atTime time).machine.hookAwake a.wait = true := by
      rw [hwait]
      exact decide_eq_true (Nat.le_refl time)
    have hbusy : (r.atTime time).machine.isBusy = true := by
      rcases Phase.of_hook? hp with ⟨-, hp⟩ | ⟨-, hp⟩
      all_goals
        show r.machine.isBusy = true
        rw [Machine.isBusy, hp]
    exact Or.inr (canStep_of_producer hbusy (Machine.hook_goes hp hawake))

theorem Live.goesOn (h : r.Live all) (hopen : r.result? = none) : r.GoesOn := by
  rcases r.machine.rested_or_sleeps with hrested | ⟨time, hlt, hsleeps⟩
  · exact Or.inl (h.progress hrested hopen)
  · rcases h.wakes hsleeps with hstep | hstep
    · exact Or.inl hstep
    · exact Or.inr ⟨time, hlt, hsleeps, r.atTime time, step_clock (Nat.le_of_lt hlt), hstep⟩

/-! ## Always nearer to the result -/

/-- The bundle comes to a result, whatever happens around it and whoever makes the next step. It is
inductive, so no schedule is infinite, and every state on the way `GoesOn`. -/
inductive Returns : Run α → Prop
  | over {r : Run α} {reply : Reply} (result : r.result? = some reply) : Returns r
  | goes {r : Run α} (goesOn : r.GoesOn)
      (next : ∀ world move r₁ r', (∀ mv ∈ world, mv.isWorld = true) → r.follow world = some r₁ →
        move.isStep = true → r₁.step move = some r' → Returns r') : Returns r

theorem isSteady_of_isWorld (h : move.isWorld = true) : move.IsSteady false := by
  cases move with
  | unlatch | supply | closeSupply | clock => exact ⟨rfl, nofun, nofun⟩
  | _ => cases h

/-- By strong induction on the `work`: what happens around costs none, and a step costs some. -/
theorem Live.returns (h : r.Live all) : r.Returns := by
  induction hwork : r.work using Nat.strong_induction_on generalizing r with
  | _ k ih =>
    cases hresult : r.result? with
    | some reply => exact .over hresult
    | none =>
      refine .goes (h.goesOn hresult) fun world move r₁ r' hworld hrun hkind hstep => ?_
      have hsteady : ∀ mv ∈ world, mv.IsSteady false := fun mv hmv =>
        isSteady_of_isWorld (hworld mv hmv)
      have hmove : move.IsSteady false := isSteady_of_isStep hkind
      have hlive : r₁.Live all := follow_invariant (I := fun r => r.Live all)
        (fun h hmove hstep => h.step hmove hstep) h hsteady hrun
      have hidle := work_follow hsteady hrun
      have hcost := work_step hstep hmove
      rw [hkind, Bool.toNat_true] at hcost
      exact ih r'.work (by omega) (hlive.step hmove hstep) rfl

/-- The steps that a bundle takes from its beginning to its end are bounded by the work that its
items and its scripts hold. -/
theorem work_bundle (setup : Setup α) (scope : Scope) (items : List (WorkItem α)) :
    (Run.bundle (.new setup scope) items).work = (Plan.opening items).work setup := rfl

/-- A bundle whose code waits for nobody else is never stuck, takes a bounded number of steps, and
so comes to a result on every schedule. -/
theorem always_returns {setup : Setup α} {scope : Scope} {items : List (WorkItem α)}
    (hprompt : setup.IsPrompt items) (hmoves : ∀ move ∈ moves, move.IsSteady false)
    (hrun : (Run.bundle (.new setup scope) items).follow moves = some r) :
    (r.result? = none → r.GoesOn) ∧
      moves.countP Move.isStep ≤ (Plan.opening items).work setup ∧ r.Returns := by
  have hlive := live hprompt hmoves hrun
  refine ⟨hlive.goesOn, ?_, hlive.returns⟩
  rw [← work_bundle setup scope items]
  exact Nat.le_of_add_right_le (work_follow hmoves hrun)

/-- Two items that sleep before they emit. -/
def sleepyItems : List (WorkItem Nat) :=
  [{ value := 7, script := [.sleep 5, .emit (.output (.given 7))] },
    { value := 8, script := [.sleep 9, .emit (.output (.given 8))] }]

/-- The first item is asleep, and the second waits for its ticket. -/
def sleepyMoves : List (Move Nat) :=
  List.replicate 8 .producer ++ List.replicate 2 (.worker 0)

theorem always_returns_sleepy :
    ∃ r, (Run.bundle (.new Machine.soloSetup) sleepyItems).follow sleepyMoves = some r ∧
      r.result? = none ∧ r.GoesOn ∧ r.Returns := by
  have hresult : ((Run.bundle (.new Machine.soloSetup) sleepyItems).follow sleepyMoves).map
      (·.result?) = some none := by decide +kernel
  obtain ⟨r, hrun, hopen⟩ := Option.map_eq_some_iff.mp hresult
  have hprompt : Machine.soloSetup.IsPrompt sleepyItems := by
    refine ⟨?_, ?_⟩
    · intro hook action hmem
      cases hook <;> cases hmem
    · simp [sleepyItems, Action.IsPrompt]
  have hmoves : ∀ move ∈ sleepyMoves, move.IsSteady false := by
    simp only [sleepyMoves, List.mem_append, List.mem_replicate]
    rintro move (⟨-, rfl⟩ | ⟨-, rfl⟩)
    all_goals exact ⟨rfl, nofun, nofun⟩
  obtain ⟨hgoes, -, hreturns⟩ := always_returns hprompt hmoves hrun
  exact ⟨r, hrun, hopen, hgoes hopen, hreturns⟩

end Run

end WorkBundle
