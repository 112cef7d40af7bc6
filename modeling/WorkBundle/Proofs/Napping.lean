import WorkBundle.Proofs.Settled

/-!
# Code that sleeps once

Code is *instant* if it takes no time: it waits for nothing but its turn and the output lock. Code
that *naps* sleeps once, with no more than silent actions before, and is instant after that. So
where its worker is tells the time (`Worker.OnTime`): up to its sleep it is the time of its start,
after that the time of its end, and a worker that is over tells that this time has come.
-/

set_option autoImplicit false

namespace WorkBundle

variable {α : Type}

/-! ## Code that takes no time -/

/-- The action waits for nothing but its turn and the output lock. A `latch` or a `permit` could
hold it up for a time that no delay of its item accounts for. -/
def Action.IsInstant : Action α → Prop
  | .sleep _ | .latch _ | .permit => False
  | _ => True

def Intake.IsInstant (intake : Intake α) : Prop :=
  ∀ e, ∀ d ∈ intake.deliver e, d ≠ .crash ∧ ∀ ms, d ≠ .pause ms

theorem Intake.isInstant_collecting {refuses : Output α → Bool} (h : ∀ v, refuses v = false) :
    (Intake.collecting none refuses).IsInstant := by
  intro e d hd
  refine ⟨isIntact_collecting h e d hd, ?_⟩
  cases e <;> simp only [collecting, h] at hd <;> grind

theorem Intake.IsInstant.isIntact {intake : Intake α} (h : intake.IsInstant) : intake.IsIntact :=
  fun e d hd => (h e d hd).1

/-- The code in progress takes no time any more: its `wait` and its emission in progress count as
well as its script. -/
structure Activity.IsInstant (a : Activity α) : Prop where
  script : ∀ action ∈ a.script, action.IsInstant
  wait : ∀ time, a.wait ≠ .clock time
  writing : ∀ steps, a.emitting = some (.writing steps) → ∀ d ∈ steps, ∀ ms, d ≠ .pause ms

namespace Machine

variable {m m₁ : Machine α} {owner : Owner α} {a a' : Activity α}

theorem requestEmission_instant (hintake : m.setup.intake.IsInstant) {e : Emission (Output α)}
    (hscript : ∀ action ∈ a.script, action.IsInstant)
    (h : m.requestEmission owner a e = (m₁, .going a')) : a'.IsInstant := by
  cases owner with
  | hook =>
    cases h
    refine ⟨hscript, nofun, fun steps hsteps => ?_⟩
    cases hsteps
    exact fun d hd => (hintake e d hd).2
  | worker =>
    cases h
    exact ⟨hscript, nofun, nofun⟩

theorem waitOf_ne_clock (m : Machine α) {action : Action α} (h : action.IsInstant) (time : Nat) :
    m.waitOf action ≠ .clock time := by
  cases action with
  | sleep | latch | permit => exact h.elim
  | _ => nofun

theorem write_instant {steps : List (Delivery α)} (hsteps : ∀ d ∈ steps, ∀ ms, d ≠ .pause ms)
    (hscript : ∀ action ∈ a.script, action.IsInstant)
    (h : m.write owner a steps = (m₁, .going a')) : a'.IsInstant := by
  cases steps with
  | nil =>
    cases h
    exact ⟨hscript, nofun, nofun⟩
  | cons d steps =>
    obtain ⟨hd, hrest⟩ := List.forall_mem_cons.mp hsteps
    have hwriting (wait : Wait) (hnot : ∀ time, wait ≠ .clock time) :
        ({ a with wait := wait, emitting := some (.writing steps) } : Activity α).IsInstant :=
      ⟨hscript, hnot, fun _ heq => by cases heq; exact hrest⟩
    cases d with
    | pause ms => exact absurd rfl (hd ms)
    | crash => cases h
    | breathe | write | keep =>
      cases h
      exact hwriting _ nofun

theorem act_instant (hintake : m.setup.intake.IsInstant) (ha : a.IsInstant)
    (h : m.act owner a = (m₁, .going a')) : a'.IsInstant := by
  cases acted h with
  | granted | begins =>
    exact ⟨ha.script, nofun, fun _ heq => by cases heq; exact fun d hd => (hintake _ d hd).2⟩
  | writes writing write =>
    exact write_instant (ha.writing _ writing) (by exact ha.script) write
  | permitted => exact ⟨ha.script, nofun, ha.writing⟩
  | performs idle script performed =>
    obtain ⟨haction, hrest⟩ := List.forall_mem_cons.mp (script ▸ ha.script)
    cases performed with
    | requests _ request =>
      exact requestEmission_instant (by exact hintake) (by exact hrest) request
    | goesOn => exact ⟨hrest, m.waitOf_ne_clock haction, ha.writing⟩

end Machine

/-! ## Code that sleeps first -/

/-- The action waits for nothing, sends nothing out, and cannot fail. An element may begin with
these, as it has to for `enter` to count it as being handled. -/
def Action.IsSilent : Action α → Prop
  | .add .. | .enter | .leave | .note _ => True
  | _ => False

/-- The code sleeps for so long, after actions that are `IsSilent` and before ones that are
`IsInstant`. So the time it takes is known beforehand. -/
def Script.Naps (d : Nat) (script : Script α) : Prop :=
  ∃ before rest, script = before ++ .sleep d :: rest ∧ (∀ action ∈ before, action.IsSilent) ∧
    ∀ action ∈ rest, action.IsInstant

/-- Where code that naps, and has begun at `start`, stands at the time `now`. There are no more
cases, because virtual time goes on only when nobody can do anything else. -/
inductive Activity.OnTime (now start d : Nat) (a : Activity α) : Prop
  | fresh (naps : a.script.Naps d) (wait : a.wait = .nothing) (emitting : a.emitting = none)
      (time : now = start)
  | asleep (instant : ∀ action ∈ a.script, action.IsInstant) (emitting : a.emitting = none)
      (wait : a.wait = .clock (start + d)) (time : now ≤ start + d)
  | woken (instant : a.IsInstant) (time : now = start + d)

/-- Where it stands after a step: code that is `over` is so when its sleep is. -/
def Progress.OnTime (now start d : Nat) : Progress α → Prop
  | .going a => a.OnTime now start d
  | .over _ => now = start + d

/-- Where the worker stands at this time. In `leaving` it still has its ticket and has taken no time
for it; later phases are past the time only if others have slept meanwhile. -/
def Worker.OnTime (now start d : Nat) (w : Worker α) : Prop :=
  match w.phase with
  | .queued => now = start
  | .working a => a.OnTime now start d
  | .offering .. | .counting .. | .leaving _ => now = start + d
  | .closing _ | .ended _ => start + d ≤ now

namespace Machine

variable {m m' m₁ : Machine α} {owner : Owner α} {a : Activity α} {p : Progress α} {n : Nat}
  {w : Worker α} {start d : Nat}

theorem act_of_clock {time : Nat} (hemitting : a.emitting = none) (hwait : a.wait = .clock time) :
    m.act owner a = m.act owner { a with wait := .nothing } := by
  obtain ⟨script, wait, emitting⟩ := a
  subst hemitting hwait
  rfl

theorem onTime_of_instant (hintake : m.setup.intake.IsInstant) (ha : a.IsInstant)
    (hnow : m.now = start + d) (h : m.act owner a = (m₁, p)) : p.OnTime m.now start d := by
  cases p with
  | going a' => exact .woken (act_instant hintake ha h) hnow
  | «over» => exact hnow

theorem act_onTime (hintake : m.setup.intake.IsInstant) (ha : a.OnTime m.now start d)
    (hawake : m.awake n a.wait = true) (h : m.act (.worker n w.item) a = (m₁, p)) :
    p.OnTime m.now start d := by
  cases ha with
  | fresh naps wait emitting time =>
    obtain ⟨before, rest, hscript, hsilent, hrest⟩ := naps
    obtain ⟨script, _, _⟩ := a
    subst wait emitting hscript
    cases before with
    | nil =>
      obtain ⟨rfl, rfl⟩ := Prod.mk.inj h
      by_cases hd : d = 0
      · refine .woken ⟨hrest, ?_, nofun⟩ (by rw [time, hd, Nat.add_zero])
        simp [pause, hd]
      · refine .asleep hrest rfl ?_ (by omega)
        simp [pause, hd, time]
    | cons action before =>
      obtain ⟨haction, hsilent⟩ := List.forall_mem_cons.mp hsilent
      have hnaps : Script.Naps d (before ++ .sleep d :: rest) := ⟨before, rest, rfl, hsilent, hrest⟩
      cases action with
      | add | enter | leave | note =>
        obtain ⟨rfl, rfl⟩ := Prod.mk.inj h
        exact .fresh hnaps rfl rfl time
      | _ => exact haction.elim
  | asleep instant emitting wait time =>
    rw [act_of_clock emitting wait] at h
    have hend : start + d ≤ m.now := by
      rw [wait] at hawake
      exact of_decide_eq_true hawake
    have hwoken : ({ a with wait := .nothing } : Activity α).IsInstant :=
      ⟨instant, nofun, by simp [emitting]⟩
    exact onTime_of_instant hintake hwoken (Nat.le_antisymm time hend) h
  | woken instant time => exact onTime_of_instant hintake instant time h

/-- A worker that goes on stays `OnTime`, and takes none. -/
theorem worker_onTime (hintake : m.setup.intake.IsInstant) (hnaps : w.item.script.Naps d)
    (hw : w.OnTime m.now start d) (h : WorkerStep m n w m') :
    m'.now = m.now ∧ ∃ p, m'.workers = (m.setPhase n p).workers ∧
      ({ w with phase := p } : Worker α).OnTime m.now start d := by
  unfold Worker.OnTime at hw
  cases h with
  | begin phase =>
    rw [phase] at hw
    exact ⟨rfl, _, rfl, .fresh hnaps rfl rfl hw⟩
  | goOn phase awake act =>
    rw [phase] at hw
    obtain ⟨_, _, _, _, _, _, rfl⟩ := act_eq act
    exact ⟨rfl, _, rfl, act_onTime hintake hw awake act⟩
  | @finish a outcome m₁ phase awake act =>
    rw [phase] at hw
    have hend : m.now = start + d := act_onTime hintake hw awake act
    obtain ⟨_, _, _, _, _, _, rfl⟩ := act_eq act
    cases outcome <;> exact ⟨rfl, _, rfl, hend⟩
  | @offer f e phase =>
    rw [phase] at hw
    rcases m.offer_cases n f e with ⟨-, heq⟩ | ⟨_, -, heq⟩
    all_goals
      rw [heq]
      exact ⟨rfl, _, rfl, hw⟩
  | count phase =>
    rw [phase] at hw
    exact ⟨rfl, _, rfl, hw⟩
  | leave phase =>
    rw [phase] at hw
    exact ⟨rfl, _, rfl, Nat.le_of_eq hw.symm⟩
  | @close e phase =>
    rw [phase] at hw
    obtain ⟨tally, log, heq⟩ := m.close_eq n e
    rw [heq]
    exact ⟨rfl, _, rfl, hw⟩

end Machine

namespace Worker.OnTime

variable {w : Worker α} {a : Activity α} {now start d time : Nat}

theorem ended (h : w.OnTime now start d) (hback : w.phase.holdsTicket = false) :
    start + d ≤ now := by
  obtain ⟨e, hphase⟩ := WorkerPhase.ending?_of_not_holdsTicket hback
  unfold Worker.OnTime at h
  rcases hphase with hphase | hphase
  all_goals
    rw [hphase] at h
    exact h

theorem asleep (h : w.OnTime now start d) (hphase : w.phase = .working a)
    (hwait : a.wait = .clock time) :
    time = start + d ∧ a.emitting = none ∧ ∀ action ∈ a.script, action.IsInstant := by
  unfold Worker.OnTime at h
  rw [hphase] at h
  cases h with
  | fresh _ wait =>
    rw [wait] at hwait
    cases hwait
  | asleep instant emitting wait =>
    rw [wait] at hwait
    cases hwait
    exact ⟨rfl, emitting, instant⟩
  | woken instant => exact absurd hwait (instant.wait time)

end Worker.OnTime

end WorkBundle
