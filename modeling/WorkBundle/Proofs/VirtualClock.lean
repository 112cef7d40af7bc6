import WorkBundle.Proofs.AnySchedule
import WorkBundle.Proofs.Return
import WorkBundle.Schedule

/-!
# Time under a virtual clock

On a single thread under a virtual clock, time stands still as long as anybody can make a step, and
then jumps to the next moment at which somebody wakes up. Such a move is *due*, and a run of moves
that are due is *punctual* (`Run.IsPunctual`); who makes a step when several can is left open.

In a punctual run nobody sleeps too long (`Live.sleeps_later`), so where nobody can make a step, the
workers have ended or sleep (`Live.stuck_worker`), and the producer waits at the gate for tickets
that they hold (`Live.stuck_call`). Until there is a result, a move is due, and there are hardly
more than two moves to a unit of work (`length_of_punctual`).
-/

set_option autoImplicit false

namespace WorkBundle

variable {α : Type}

namespace Run

variable {r r' r₀ : Run α} {move : Move α} {moves : List (Move α)} {all : List (WorkItem α)}
  {n time : Nat} {w : Worker α} {a : Activity α}

/-! ## Who can make a step, and who sleeps -/

def actors (r : Run α) : List Actor :=
  .producer :: (List.range r.machine.workers.length).map .worker

theorem worker_mem_actors (hw : r.machine.workers[n]? = some w) : .worker n ∈ r.actors := by
  obtain ⟨hlt, -⟩ := List.getElem?_eq_some_iff.mp hw
  exact List.mem_cons_of_mem _ (List.mem_map_of_mem (List.mem_range.mpr hlt))

theorem isStep_move (actor : Actor) : (actor.move : Move α).isStep = true := by cases actor <;> rfl

theorem canStep_iff : r.CanStep ↔ ∃ actor ∈ r.actors, (r.step actor.move).isSome = true := by
  constructor
  · rintro ⟨move, r', hkind, hstep⟩
    cases move with
    | producer => exact ⟨.producer, List.mem_cons_self, Option.isSome_of_eq_some hstep⟩
    | worker n =>
      rcases step_cases hstep with ⟨hmove, -, -⟩ | ⟨m', hm', -⟩
      · cases hmove
      · obtain ⟨w, hw, -⟩ := Machine.workerStep_of_stepWorker hm'
        exact ⟨.worker n, worker_mem_actors hw, Option.isSome_of_eq_some hstep⟩
    | _ => cases hkind
  · rintro ⟨actor, -, hsome⟩
    obtain ⟨r', hr'⟩ := Option.isSome_iff_exists.mp hsome
    exact ⟨actor.move, r', isStep_move actor, hr'⟩

instance : Decidable r.CanStep := decidable_of_iff' _ canStep_iff

theorem sleeps_iff : r.machine.Sleeps time ↔ ∃ actor ∈ r.actors, r.alarm? actor = some time := by
  constructor
  · rintro (⟨hw, hphase, hwait⟩ | ⟨hhook, hwait⟩)
    · rename_i n w a
      obtain ⟨item, phase⟩ := w
      obtain ⟨script, wait, emitting⟩ := a
      subst hphase hwait
      exact ⟨.worker n, worker_mem_actors hw, by simp [alarm?, hw]⟩
    · rename_i hook a
      obtain ⟨script, wait, emitting⟩ := a
      subst hwait
      refine ⟨.producer, List.mem_cons_self, ?_⟩
      rcases Phase.of_hook? hhook with ⟨-, hp⟩ | ⟨-, hp⟩ <;> simp [alarm?, hp]
  · rintro ⟨actor, -, halarm⟩
    cases actor with
    | producer =>
      simp only [alarm?] at halarm
      split at halarm
      · rename_i script _ emitting hp
        cases halarm
        have hhook : r.machine.producer.hook? = some (.start, ⟨script, .clock time, emitting⟩) := by
          rw [hp]
          rfl
        exact .hook hhook rfl
      · rename_i script _ emitting hp
        cases halarm
        have hhook :
            r.machine.producer.hook? = some (.finish, ⟨script, .clock time, emitting⟩) := by
          rw [hp]
          rfl
        exact .hook hhook rfl
      · cases halarm
    | worker n =>
      simp only [alarm?] at halarm
      split at halarm
      · rename_i hw
        cases halarm
        exact .worker hw rfl rfl
      · cases halarm

instance : Decidable (r.machine.Sleeps time) := decidable_of_iff' _ sleeps_iff

/-! ## Moves that are due -/

/-- Nobody wakes up before this time, by the alarms of all `actors`. -/
def NobodyBefore (r : Run α) (time : Nat) : Prop :=
  ∀ actor ∈ r.actors, ∀ other ∈ r.alarm? actor, time ≤ other

/-- Whoever can make a step may make it. Only where nobody can, time jumps to the next moment at
which somebody wakes up; so no time passes while there is work to do. -/
def IsDue (r : Run α) : Move α → Prop
  | .producer | .worker _ => True
  | .clock time => ¬ r.CanStep ∧ r.machine.Sleeps time ∧ r.NobodyBefore time
  | _ => False

/-- Every move of the run `IsDue`. -/
def IsPunctual (r : Run α) : List (Move α) → Prop
  | [] => True
  | move :: moves => r.IsDue move ∧ ∀ r' ∈ r.step move, IsPunctual r' moves

instance : Decidable (r.NobodyBefore time) :=
  inferInstanceAs (Decidable (∀ actor ∈ r.actors, ∀ other ∈ r.alarm? actor, time ≤ other))

instance : Decidable (r.IsDue move) :=
  match move with
  | .producer | .worker _ => isTrue trivial
  | .clock time =>
    inferInstanceAs (Decidable (¬ r.CanStep ∧ r.machine.Sleeps time ∧ r.NobodyBefore time))
  | .call _ | .abandon | .drop _ | .cancel | .unlatch _ | .supply _ | .closeSupply => isFalse id

def decidePunctual (r : Run α) : (moves : List (Move α)) → Decidable (r.IsPunctual moves)
  | [] => isTrue trivial
  | move :: moves =>
    have (r' : Run α) : Decidable (r'.IsPunctual moves) := decidePunctual r' moves
    inferInstanceAs (Decidable (r.IsDue move ∧ ∀ r' ∈ r.step move, r'.IsPunctual moves))

instance : Decidable (r.IsPunctual moves) := r.decidePunctual moves

theorem isDue_of_isStep (h : move.isStep = true) : r.IsDue move := by
  cases move with
  | producer | worker => trivial
  | _ => cases h

theorem IsDue.isSteady (h : r.IsDue move) : move.IsSteady false := by
  cases move with
  | producer | worker | clock => exact ⟨rfl, nofun, nofun⟩
  | _ => exact h.elim

theorem isPunctual_concat (hrun : r₀.follow moves = some r) :
    r₀.IsPunctual (moves ++ [move]) ↔ r₀.IsPunctual moves ∧ r.IsDue move := by
  induction moves generalizing r₀ with
  | nil =>
    cases hrun
    simp [IsPunctual]
  | cons first moves ih =>
    obtain ⟨r₁, h₁, h₂⟩ := Option.bind_eq_some_iff.mp hrun
    simp only [List.cons_append, IsPunctual, h₁, Option.mem_some_iff, forall_eq', ih h₂, and_assoc]

theorem punctual_induction {Q : List (Move α) → Run α → Prop} (h₀ : Q [] r₀)
    (hstep : ∀ {moves : List (Move α)} {r r' : Run α} {move : Move α}, r₀.IsPunctual moves →
      r₀.follow moves = some r → Q moves r → r.IsDue move → r.step move = some r' →
      Q (moves ++ [move]) r')
    (hdue : r₀.IsPunctual moves) (hrun : r₀.follow moves = some r) : Q moves r := by
  induction moves using List.reverseRecOn generalizing r with
  | nil =>
    cases hrun
    exact h₀
  | append_singleton moves move ih =>
    obtain ⟨r₁, h₁, h₂⟩ := follow_concat hrun
    obtain ⟨hbefore, hlast⟩ := (isPunctual_concat h₁).mp hdue
    exact hstep hbefore h₁ (ih hbefore h₁) hlast h₂

theorem IsPunctual.isSteady (hdue : r₀.IsPunctual moves) (hrun : r₀.follow moves = some r) :
    ∀ move ∈ moves, move.IsSteady false := by
  refine punctual_induction (Q := fun moves _ => ∀ move ∈ moves, move.IsSteady false) nofun ?_
    hdue hrun
  intro moves r r' last _ _ ih hlast _ move hmem
  rcases List.mem_append.mp hmem with hmem | hmem
  · exact ih move hmem
  · rw [List.mem_singleton.mp hmem]
    exact hlast.isSteady

/-! ## Where nobody can make a step -/

namespace Live

theorem not_lent (h : r.Live all) (hstuck : ¬ r.CanStep) (n : Nat) :
    r.machine.isLent n = false := by
  by_contra hlent
  have hgoes : r.machine.stepProducer.isSome = true ∨ (r.machine.stepWorker n).isSome = true :=
    (Machine.lent_of_isLent (Bool.eq_true_of_not_eq_false hlent)).elim (Machine.polled_goes h.lent)
      (Machine.dropped_goes h.lent)
  have hbusy : r.machine.producer ≠ .idle := by
    rintro hidle
    simp [Machine.isLent, hidle] at hlent
  exact hstuck (hgoes.elim (canStep_of_producer (isBusy_of_not_idle hbusy)) canStep_of_worker)

theorem sleeps_later (h : r.Live all) (hstuck : ¬ r.CanStep) (hsleeps : r.machine.Sleeps time) :
    r.machine.now < time := by
  by_contra hle
  have hle : time ≤ r.machine.now := Nat.le_of_not_lt hle
  cases hsleeps with
  | @worker n w a hw hphase hwait =>
    have hawake : r.machine.awake n a.wait = true := by
      rw [hwait]
      exact decide_eq_true hle
    refine hstuck (canStep_of_worker (Machine.working_goes hw hphase ?_))
    rw [h.not_lent hstuck n, hawake]
    rfl
  | @hook hook a hp hwait =>
    have hawake : r.machine.hookAwake a.wait = true := by
      rw [hwait]
      exact decide_eq_true hle
    have hbusy : r.machine.producer ≠ .idle := by
      intro hidle
      rw [hidle] at hp
      cases hp
    exact hstuck (canStep_of_producer (isBusy_of_not_idle hbusy) (Machine.hook_goes hp hawake))

/-- A worker that can make no step has ended, or sleeps: if it waits for the lock, then whoever has
it can make one by `turn_goes`, if nobody sleeps while he emits. -/
theorem stuck_worker (h : r.Live all) (hstuck : ¬ r.CanStep)
    (hlock : ∀ (n : Nat) (w : Worker α) (a : Activity α) (time : Nat),
      r.machine.workers[n]? = some w → w.phase = .working a → a.lockUse = .holds →
      a.wait ≠ .clock time)
    (hw : r.machine.workers[n]? = some w) :
    (∃ e, w.phase = .ended e) ∨ ∃ a time, w.phase = .working a ∧ a.wait = .clock time := by
  have hstays (k : Nat) : ¬ (r.machine.stepWorker k).isSome = true := fun hgoes =>
    hstuck (canStep_of_worker hgoes)
  have hlent := h.not_lent hstuck
  by_contra hnot
  rw [not_or, not_exists] at hnot
  obtain ⟨hopen, hasleep⟩ := hnot
  by_cases hwork : ∃ a, w.phase = .working a
  · obtain ⟨a, hphase⟩ := hwork
    by_cases hwaits : a.wait = .lock
    · have huse : r.machine.lockUse n = .waits := by
        rw [Machine.lockUse_of_worker hw, hphase]
        exact (h.lock.coherent n w a hw hphase).mp hwaits
      obtain ⟨k, hgoes⟩ := Machine.turn_goes h.prompt h.lock hlent
        (fun k v b time hv hb hholds hwait => absurd hwait (hlock k v b time hv hb hholds)) huse
      exact hstays k hgoes
    · refine hstays n (Machine.code_goes h.prompt (hlent n) hw hphase (fun time hwait => ?_)
        fun hlock => absurd hlock hwaits)
      exact absurd ⟨a, time, hphase, hwait⟩ hasleep
  · exact hstays n (Machine.idle_goes hw hopen (fun a ha => hwork ⟨a, ha⟩)
      (fun _ => Machine.isDropped_of_not_lent (hlent n)) fun _ _ => hlent n)

/-- A call that can make no step, where no hook sleeps, waits at the gate with its `request?`: there
are fewer tickets than it asks for and others hold. -/
theorem stuck_call (h : r.Live all) (hstuck : ¬ r.CanStep) (hopen : r.result? = none)
    (hhook : ∀ hook a time, r.machine.producer.hook? = some (hook, a) → a.wait ≠ .clock time) :
    ∃ request, r.machine.producer.request? = some request ∧ r.machine.gate.capacity.count <
      Machine.inFlight r.machine.workers + request.need r.machine.gate.capacity.count := by
  have hbusy : r.machine.producer ≠ .idle := fun hidle => hstuck (h.proceeds hidle hopen)
  have hstays : ¬ r.machine.stepProducer.isSome = true := fun hgoes =>
    hstuck (canStep_of_producer (isBusy_of_not_idle hbusy) hgoes)
  cases hr : r.machine.producer.request? with
  | none =>
    rcases Machine.call_goes h.prompt h.lent
      (fun hook a time hp hwait => absurd hwait (hhook hook a time hp)) hbusy hr with
      hgoes | ⟨n, hgoes⟩
    · exact absurd hgoes hstays
    · exact absurd (canStep_of_worker hgoes) hstuck
  | some request =>
    refine ⟨request, rfl, ?_⟩
    by_contra henough
    have hasking := h.sound.tickets.asking hr
    have hbalance := hasking.balance
    rw [hr] at hasking
    have hready := (hasking.line.granted_of_enough h.sound.uncancelled (by omega)).1
    exact hstays (Machine.ask_goes hr hready)

/-! ## A punctual run goes on, and ends -/

/-- Until it has a result, some move `IsDue` and can be made. -/
theorem due (h : r.Live all) (hopen : r.result? = none) :
    ∃ move r', r.IsDue move ∧ r.step move = some r' := by
  by_cases hstep : r.CanStep
  · obtain ⟨move, r', hkind, hmove⟩ := hstep
    exact ⟨move, r', isDue_of_isStep hkind, hmove⟩
  · have hsomeone : ∃ time, r.machine.Sleeps time := by
      rcases h.goesOn hopen with hgoes | ⟨time, -, hsleeps, -⟩
      · exact absurd hgoes hstep
      · exact ⟨time, hsleeps⟩
    have hfirst := Nat.find_spec hsomeone
    refine ⟨.clock (Nat.find hsomeone), _, ⟨hstep, hfirst, ?_⟩,
      step_clock (Nat.le_of_lt (h.sleeps_later hstep hfirst))⟩
    exact fun actor hactor other hother =>
      Nat.find_min' hsomeone (sleeps_iff.mpr ⟨actor, hactor, hother⟩)

end Live

/-- What a move that `IsDue` can do: the producer goes on, with its plan or with a call; a worker
goes on; or time passes. -/
inductive DueStep (r : Run α) : Run α → Prop
  | planned {r' : Run α} (machine : r'.machine = r.machine) : DueStep r r'
  | calls {r' : Run α} {c : Call α} (idle : r.machine.producer = .idle)
      (machine : r'.machine = r.machine.beginCall c) : DueStep r r'
  | producer {m' : Machine α} (step : Machine.ProducerStep r.machine m') :
      DueStep r { r with machine := m' }
  | worker {n : Nat} {w : Worker α} {m' : Machine α} (worker : r.machine.workers[n]? = some w)
      (step : Machine.WorkerStep r.machine n w m') : DueStep r { r with machine := m' }
  | clock {time : Nat} (stuck : ¬ r.CanStep) (sleeps : r.machine.Sleeps time)
      (first : r.NobodyBefore time) (later : r.machine.now < time) : DueStep r (r.atTime time)

theorem Live.dueStep (h : r.Live all) (hdue : r.IsDue move) (hstep : r.step move = some r') :
    DueStep r r' := by
  rcases step_cases hstep with ⟨-, hidle, hproceed⟩ | ⟨m', hm', rfl⟩
  · rcases next_machine (next_of_proceed hproceed) with heq | ⟨c, heq⟩
    · exact .planned heq
    · exact .calls hidle heq
  · cases move with
    | producer => exact .producer (Machine.producerStep_of_stepProducer hm')
    | worker n =>
      obtain ⟨w, hw, hworker⟩ := Machine.workerStep_of_stepWorker hm'
      exact .worker hw hworker
    | clock time =>
      obtain ⟨hstuck, hsleeps, hfirst⟩ := hdue
      have hlater := h.sleeps_later hstuck hsleeps
      rw [step_clock (Nat.le_of_lt hlater)] at hstep
      cases hstep
      exact .clock hstuck hsleeps hfirst hlater
    | _ => exact hdue.elim

/-- A punctual run is hardly longer than twice the `work` of the bundle, since the clock never jumps
twice in a row. -/
theorem length_of_punctual {setup : Setup α} {scope : Scope} (hprompt : setup.IsPrompt all)
    (hdue : (Run.bundle (.new setup scope) all).IsPunctual moves)
    (hrun : (Run.bundle (.new setup scope) all).follow moves = some r) :
    moves.length ≤ 2 * moves.countP Move.isStep + 1 ∧
      (¬ r.CanStep → moves.length ≤ 2 * moves.countP Move.isStep) := by
  refine punctual_induction (Q := fun moves r => moves.length ≤ 2 * moves.countP Move.isStep + 1 ∧
    (¬ r.CanStep → moves.length ≤ 2 * moves.countP Move.isStep))
    ⟨Nat.zero_le _, fun _ => Nat.le_refl _⟩ ?_ hdue hrun
  intro moves r r' move hdue hrun ⟨hany, hstill⟩ hmove hstep
  rw [List.length_append, List.countP_append, List.length_singleton, List.countP_singleton]
  cases hkind : move.isStep with
  | true =>
    rw [if_pos rfl]
    omega
  | false =>
    rw [if_neg Bool.false_ne_true]
    cases move with
    | clock time =>
      obtain ⟨hstuck, hsleeps, -⟩ := hmove
      have hlive := live hprompt (hdue.isSteady hrun) hrun
      rw [step_clock (Nat.le_of_lt (hlive.sleeps_later hstuck hsleeps))] at hstep
      cases hstep
      have hwakes := (hlive.wakes hsleeps).resolve_left hstuck
      have hbound := hstill hstuck
      exact ⟨by omega, fun hnot => absurd hwakes hnot⟩
    | producer | worker => cases hkind
    | _ => exact hmove.elim

end Run

end WorkBundle
