import WorkBundle.Proofs.Holdings
import WorkBundle.Proofs.Lifecycle
import WorkBundle.Proofs.Output
import WorkBundle.Proofs.TimedBundle

/-!
# Work is never kept waiting

On a virtual clock, a bundle of items that sleep is processed as greedy scheduling says
(`Run.work_conserving`): each element begins as soon as fewer than `n` of those before it are in
progress, and the bundle returns when the last one ends. As long as nothing has ended, all hands are
in use, so if every delay takes some time, then `n` elements are in progress at once, or all of
them.
-/

set_option autoImplicit false

namespace WorkBundle

variable {α : Type}

namespace Run

variable {r r' r₀ : Run α} {move : Move α} {moves : List (Move α)} {setup : Setup α}
  {scope : Scope} {items : List (WorkItem α)} {delays : List Nat} {i : Nat}

/-! ## When elements begin -/

/-- The times at which the element of this number begins to be processed in a run. That there is
one, and which, is for `startTimes_eq` to say. -/
def startTimes (r : Run α) (moves : List (Move α)) (i : Nat) : List Nat :=
  match moves with
  | [] => []
  | move :: moves =>
    match r.step move with
    | none => []
    | some r' =>
      (if Machine.beginsElement i r.machine r'.machine then [r.machine.now] else []) ++
        r'.startTimes moves i

theorem startTimes_concat (hrun : r₀.follow moves = some r) (hstep : r.step move = some r')
    (i : Nat) : r₀.startTimes (moves ++ [move]) i = r₀.startTimes moves i ++
      if Machine.beginsElement i r.machine r'.machine then [r.machine.now] else [] := by
  induction moves generalizing r₀ with
  | nil =>
    cases hrun
    simp [startTimes, hstep]
  | cons first moves ih =>
    obtain ⟨r₁, h₁, h₂⟩ := Option.bind_eq_some_iff.mp hrun
    simp only [List.cons_append, startTimes, h₁, ih h₂, List.append_assoc]

theorem OnSchedule.begins (h : r.OnSchedule setup scope items delays) (hdue : r.IsDue move)
    (hstep : r.step move = some r') (i : Nat) :
    Machine.beginsElement i r.machine r'.machine = false ∧
      Machine.leftQueue i r'.machine = Machine.leftQueue i r.machine ∨
    Machine.beginsElement i r.machine r'.machine = true ∧
      Machine.leftQueue i r.machine = false ∧ Machine.leftQueue i r'.machine = true ∧
      r.machine.now = ListSchedule.start setup.parallelism.count delays i := by
  rcases step_cases hstep with ⟨-, hidle, hproceed⟩ | ⟨m', hm', rfl⟩
  · left
    rcases next_machine (next_of_proceed hproceed) with heq | ⟨c, heq⟩
    · rw [heq]
      exact Machine.beginsElement_of_eq rfl
    · rw [heq]
      exact Machine.beginsElement_of_eq (by rw [(Machine.beginCall_quick r.machine c).2])
  · cases Machine.queueStep (Machine.transition_of_step hm') i with
    | same begins left => exact Or.inl ⟨begins, left⟩
    | @begins w worker phase begins left =>
      obtain ⟨d, -, -, htime⟩ := h.timed.worker i w worker
      rw [Worker.OnTime, phase] at htime
      exact Or.inr ⟨begins, Machine.leftQueue_of_queued worker phase, left, htime⟩
    | dropped _ _ dropped =>
      rcases dropped with rfl | ⟨-, hp⟩
      · exact hdue.elim
      · have hjudged := h.deciding.regular.judged
        rw [hp] at hjudged
        exact absurd (h.deciding.runs i) hjudged

theorem startTimes_eq (h : setup.Lasts scope items delays)
    (hdue : (Run.bundle (.new setup scope) items).IsPunctual moves)
    (hrun : (Run.bundle (.new setup scope) items).follow moves = some r) (i : Nat) :
    (Run.bundle (.new setup scope) items).startTimes moves i =
      if Machine.leftQueue i r.machine then
        [ListSchedule.start setup.parallelism.count delays i] else [] := by
  refine punctual_induction (Q := fun moves r =>
    (Run.bundle (.new setup scope) items).startTimes moves i =
      if Machine.leftQueue i r.machine then
        [ListSchedule.start setup.parallelism.count delays i] else []) rfl ?_ hdue hrun
  intro moves r r' move hdue hrun ih hmove hstep
  rw [startTimes_concat hrun hstep, ih]
  rcases (onSchedule h hdue hrun).begins hmove hstep i with
    ⟨hsame, hleft⟩ | ⟨hnew, hold, hleft, hnow⟩
  · rw [hsame, hleft, if_neg Bool.false_ne_true, List.append_nil]
  · rw [hnew, hold, hleft, hnow, if_neg Bool.false_ne_true]
    rfl

/-! ## How many are in progress -/

theorem maxActive_bounds (hrun : (Run.bundle (.new setup scope) items).follow moves = some r) :
    r.machine.tally.bodies.active = (Machine.atWork r.machine.workers).countP id ∧
      r.machine.tally.bodies.active ≤ r.machine.tally.bodies.maxActive ∧
      r.machine.tally.bodies.maxActive ≤ setup.parallelism.count ∧
      r.machine.tally.bodies.maxActive ≤ r.machine.workers.length := by
  obtain ⟨expanded, hexpanded, -⟩ := follow_machine hrun
  have hcounted := (Machine.Counted.new setup scope).run hexpanded
  refine ⟨hcounted.active, ?_, Machine.maxActive_le hexpanded, ?_⟩
  · exact Machine.run_invariant (I := fun m => m.tally.bodies.active ≤ m.tally.bodies.maxActive)
      (fun hle ht => Machine.active_le_maxActive ht hle) (Nat.le_refl _) hexpanded
  · have hle := Machine.run_invariant
      (I := fun m => m.Counted ∧ m.tally.bodies.maxActive ≤ m.tally.submitted)
      (fun ⟨hcounted, hle⟩ ht =>
        ⟨hcounted.step ht, Machine.maxActive_le_submitted ht (hcounted.step ht) hle⟩)
      ⟨.new setup scope, Nat.le_refl _⟩ hexpanded
    rw [← hcounted.submitted]
    exact hle.2

/-- Before any time has passed, and nobody can make a step (`CanStep`), all hands are in use. -/
theorem OnSchedule.first_round (h : r.OnSchedule setup scope items delays) (hstuck : ¬ r.CanStep)
    (hnow : r.machine.now = 0) (hpositive : ∀ d ∈ delays, 0 < d) :
    min setup.parallelism.count delays.length ≤ (Machine.atWork r.machine.workers).countP id := by
  have hall : (Machine.atWork r.machine.workers).countP id = r.machine.workers.length := by
    rw [← Machine.length_marks WorkerPhase.isWorking, ← Machine.atWork, List.countP_eq_length]
    intro b hb
    obtain ⟨w, hmem, rfl⟩ := List.mem_map.mp hb
    obtain ⟨i, hw⟩ := List.getElem?_of_mem hmem
    rcases h.stuck_worker hstuck hw with ⟨e, hphase⟩ | ⟨a, time, hphase, -⟩
    · obtain ⟨d, hd, -, htime⟩ := h.timed.worker i w hw
      have hover := htime.ended (by rw [hphase]; rfl)
      have hd := hpositive d (List.mem_of_getElem? hd)
      omega
    · rw [hphase]
      rfl
  have hle := h.timed.length_le
  by_cases hleft : r.machine.workers.length < delays.length
  · have hfull := h.stuck_full hstuck hleft
    have hflight : Machine.inFlight r.machine.workers ≤ r.machine.workers.length :=
      List.countP_le_length
    omega
  · omega

theorem min_le_maxActive (h : setup.Lasts scope items delays)
    (hdue : (Run.bundle (.new setup scope) items).IsPunctual moves)
    (hrun : (Run.bundle (.new setup scope) items).follow moves = some r)
    (hpositive : ∀ d ∈ delays, 0 < d) : 0 < r.machine.now →
      min setup.parallelism.count delays.length ≤ r.machine.tally.bodies.maxActive := by
  refine punctual_induction (Q := fun _ r => 0 < r.machine.now →
    min setup.parallelism.count delays.length ≤ r.machine.tally.bodies.maxActive)
    (fun hlate => absurd hlate (Nat.lt_irrefl 0)) ?_ hdue hrun
  intro moves r r' move hdue hrun ih hmove hstep hlate
  have hon := onSchedule h hdue hrun
  have hquick {m' : Machine α} {mv : Move α} (ht : Machine.Transition r.machine mv m')
      (hnow : m'.now = r.machine.now) (hlate : 0 < m'.now) :
      min setup.parallelism.count delays.length ≤ m'.tally.bodies.maxActive :=
    (ih (hnow ▸ hlate)).trans (Machine.maxActive_mono ht)
  cases hon.live.dueStep hmove hstep with
  | planned machine =>
    rw [machine] at hlate ⊢
    exact ih hlate
  | @calls _ c idle machine =>
    rw [machine] at hlate ⊢
    exact hquick (Machine.transition_of_beginCall c idle) (Machine.beginCall_quick _ c).1 hlate
  | producer hcall =>
    obtain ⟨hnow, -⟩ := Machine.call_step hon.deciding.runs hon.deciding.regular.judged hcall
    exact hquick (.producer hcall) hnow hlate
  | @worker i w _ hw hworker =>
    obtain ⟨d, -, hnaps, htime⟩ := hon.timed.worker i w hw
    have hintake : r.machine.setup.intake.IsInstant := hon.made ▸ h.intake
    exact hquick (.worker hw hworker) (Machine.worker_onTime hintake hnaps htime hworker).1 hlate
  | clock stuck =>
    by_cases hnow : r.machine.now = 0
    · obtain ⟨hactive, hmost, -, -⟩ := maxActive_bounds hrun
      have hround := hon.first_round stuck hnow hpositive
      rw [← hactive] at hround
      exact hround.trans hmost
    · exact ih (Nat.pos_of_ne_zero hnow)

/-! ## The whole bundle -/

/-- If every delay takes some time, all hands were in use at once, or as many as there are items. An
element without a delay may be over before the next one begins. -/
theorem OnSchedule.maxActive_eq (h : setup.Lasts scope items delays)
    (hdue : (Run.bundle (.new setup scope) items).IsPunctual moves)
    (hrun : (Run.bundle (.new setup scope) items).follow moves = some r) {reply : Reply}
    (hresult : r.result? = some reply) (hpositive : ∀ d ∈ delays, 0 < d) :
    r.machine.tally.bodies.maxActive = min setup.parallelism.count delays.length := by
  have hon := onSchedule h hdue hrun
  obtain ⟨-, -, hcapacity, hlength⟩ := maxActive_bounds hrun
  have hle := hon.timed.length_le
  refine Nat.le_antisymm (by omega) ?_
  cases hdelays : delays with
  | nil => simp
  | cons d later =>
    subst hdelays
    refine min_le_maxActive h hdue hrun hpositive ?_
    have hfirst : (d :: later)[0]? = some d := rfl
    have hend := ListSchedule.le_makespan
      (List.mem_of_getElem? (ListSchedule.getElem?_ends setup.parallelism.count hfirst))
    have hd := hpositive d List.mem_cons_self
    rw [hon.now_eq hresult]
    omega

/-- On a virtual clock, a bundle of items that sleep for these delays is processed as greedy
scheduling says. It goes on until it has a result, with hardly more than two moves to a unit of
work. Each element begins once, when fewer than `n` of those before it are in progress for the first
time; and the bundle returns when the last one ends. If every delay takes some time, then `n`
elements are in progress at the peak, or all of them; and if the delays are equal, the elements come
in rounds. -/
theorem work_conserving (h : setup.Lasts scope items delays)
    (hdue : (Run.bundle (.new setup scope) items).IsPunctual moves)
    (hrun : (Run.bundle (.new setup scope) items).follow moves = some r) :
    (r.result? = none → ∃ move r', r.IsDue move ∧ r.step move = some r') ∧
    moves.length ≤ 2 * (Plan.opening items).work setup + 1 ∧
    (∀ i, ∀ t ∈ (Run.bundle (.new setup scope) items).startTimes moves i,
      t = ListSchedule.start setup.parallelism.count delays i) ∧
    ∀ reply, r.result? = some reply →
      (∀ i < items.length, (Run.bundle (.new setup scope) items).startTimes moves i =
        [ListSchedule.start setup.parallelism.count delays i]) ∧
      r.machine.now = ListSchedule.makespan setup.parallelism.count delays ∧
      ((∀ d ∈ delays, 0 < d) →
        r.machine.tally.bodies.maxActive = min setup.parallelism.count items.length) ∧
      ∀ d, delays = List.replicate items.length d →
        r.machine.now = (items.length + setup.parallelism.count - 1) / setup.parallelism.count * d ∧
        (0 < d → r.machine.tally.bodies.maxActive = min setup.parallelism.count items.length) := by
  have hon := onSchedule h hdue hrun
  have hlength := h.items.length_eq
  refine ⟨hon.live.due, ?_, fun i t ht => ?_, fun reply hresult => ?_⟩
  · have hsteady := hdue.isSteady hrun
    have hwork := work_follow hsteady hrun
    have hmoves := (length_of_punctual h.isPrompt hdue hrun).1
    rw [← work_bundle setup scope items]
    omega
  · rw [startTimes_eq h hdue hrun] at ht
    split at ht
    · exact List.mem_singleton.mp ht
    · cases ht
  · have hover := hon.now_eq hresult
    have hpeak := OnSchedule.maxActive_eq h hdue hrun hresult
    rw [← hlength] at hpeak
    refine ⟨fun i hi => ?_, hover, hpeak, ?_⟩
    · obtain ⟨w, hw⟩ : ∃ w, r.machine.workers[i]? = some w := by
        refine ⟨_, List.getElem?_eq_getElem ?_⟩
        rw [hon.handed_all (Or.inr ⟨reply, plan_of_result? hresult⟩), ← hlength]
        exact hi
      obtain ⟨e, hphase⟩ := Machine.over_of_inFlight_zero
        (hon.live.sound.quiet (plan_of_result? hresult)).empty hw
      have hleft : Machine.leftQueue i r.machine = true := by
        obtain ⟨item, _⟩ := w
        rcases hphase with rfl | rfl <;> rw [Machine.leftQueue, hw]
      rw [startTimes_eq h hdue hrun, hleft, if_pos rfl]
    · rintro d rfl
      refine ⟨?_, fun hd => hpeak fun e he => List.eq_of_mem_replicate he ▸ hd⟩
      rw [hover, ListSchedule.makespan_replicate setup.parallelism.one_le]

/-- Items that sleep before they emit. -/
def napItems : List (WorkItem Nat) :=
  [30, 10, 5, 20].map fun ms =>
    { value := ms, script := [.enter, .sleep ms, .emit (.output (.given ms)), .leave] }

/-- One worker wakes up and ends, and the next one begins and falls asleep. -/
def napTurn (n next : Nat) : List (Move Nat) :=
  List.replicate 7 (.worker n) ++ List.replicate 5 .producer ++ [.worker n] ++
    List.replicate 3 (.worker next)

/-- Two items at a time. The third begins when the second ends, and the last when the third does. -/
def napMoves : List (Move Nat) :=
  List.replicate 15 .producer ++ List.replicate 3 (.worker 0) ++ List.replicate 3 (.worker 1) ++
    [.clock 10] ++ napTurn 1 2 ++ [.clock 15] ++ napTurn 2 3 ++ [.clock 30] ++
    List.replicate 8 (.worker 0) ++ [.clock 35] ++ List.replicate 7 (.worker 3) ++
    List.replicate 7 .producer

theorem work_conserving_naps :
    ∃ r, (Run.bundle (.new pairSetup) napItems).follow napMoves = some r ∧
      (Run.bundle (.new pairSetup) napItems).IsPunctual napMoves ∧
      r.result? = some (.answer (.ok ())) ∧
      (Run.bundle (.new pairSetup) napItems).startTimes napMoves 3 = [15] ∧
      r.machine.now = 35 ∧ r.machine.tally.bodies.maxActive = 2 := by
  have hresult : ((Run.bundle (.new pairSetup) napItems).follow napMoves).map (·.result?) =
      some (some (.answer (.ok ()))) := by decide +kernel
  obtain ⟨r, hrun, hresult⟩ := Option.map_eq_some_iff.mp hresult
  have hdue : (Run.bundle (.new pairSetup) napItems).IsPunctual napMoves := by decide +kernel
  have hlasts : pairSetup.Lasts {} napItems [30, 10, 5, 20] := by
    refine ⟨fun _ => rfl, Intake.isInstant_collecting fun _ => rfl, ?_, by decide, ?_⟩
    · intro hook action hmem
      cases hook
      all_goals
        obtain rfl := List.mem_singleton.mp hmem
        trivial
    · have hitem (ms : Nat) : Script.Naps ms
          ([.enter, .sleep ms, .emit (.output (.given ms)), .leave] : Script Nat) :=
        ⟨[.enter], [.emit (.output (.given ms)), .leave], rfl, by simp [Action.IsSilent],
          by simp [Action.IsInstant]⟩
      exact .cons ⟨hitem 30, by decide⟩ (.cons ⟨hitem 10, by decide⟩
        (.cons ⟨hitem 5, by decide⟩ (.cons ⟨hitem 20, by decide⟩ .nil)))
  obtain ⟨-, -, -, hover⟩ := work_conserving hlasts hdue hrun
  obtain ⟨hstarts, hnow, hpeak, -⟩ := hover _ hresult
  refine ⟨r, hrun, hdue, hresult, (hstarts 3 (by decide)).trans (by decide),
    hnow.trans (by decide), (hpeak (by decide)).trans (by decide)⟩

end Run

end WorkBundle
