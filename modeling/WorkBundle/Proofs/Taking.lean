import Mathlib.Logic.Function.Basic
import WorkBundle.Proofs.Senders

/-!
# What the sink is taking in

A sink takes an emission in by steps, and others may run between them. `Machine.takingBy` says for
each emitter, that is a worker or a hook, which steps are left of the emission that the sink is
taking in from it. One step of the engine lets the sink begin with one emission, or go on with one,
or be done with it, or it breaks one off, because the code that made it is gone; and it leaves those
of all other emitters alone (`emissionStep`).

`Machine.emitted` is the history of a run in these terms: every emission that the sink has begun to
take in, with its emitter.
-/

set_option autoImplicit false

namespace WorkBundle

variable {α : Type}

/-- Whoever emits. A worker is named by its number and not by its item, since two items may be
equal. -/
inductive Emitter where
  | hook (hook : Hook)
  | worker (number : Nat)
  deriving DecidableEq

/-- The steps that are left of the emission that the sink takes in from this code. While it waits
for the lock (`Emitting.queued`) the sink knows nothing of it yet. -/
def Activity.taking (a : Activity α) : Option (List (Delivery α)) :=
  match a.emitting with
  | some (.writing steps) => some steps
  | _ => none

/-- The emission that the next step of this code lets the sink begin with. A worker has asked for it
before (`Emitting.queued`); a hook does not ask, so it is what its next action emits in the present
scope (`Action.does`). -/
def Activity.next? (owner : Owner α) (scope : Scope) (a : Activity α) :
    Option (Emission (Output α)) :=
  match a.emitting, owner with
  | some (.queued e), _ => some e
  | none, .hook _ => a.script.head?.bind fun action => (action.does none scope).toOption.join
  | _, _ => none

def Progress.taking : Progress α → Option (List (Delivery α))
  | .going a => a.taking
  | .over _ => none

def WorkerPhase.taking : WorkerPhase α → Option (List (Delivery α))
  | .working a => a.taking
  | _ => none

theorem Progress.phase_taking (n identity : Nat) (p : Progress α) :
    (p.phase n identity).taking = p.taking := by
  cases p with
  | going => rfl
  | «over» outcome => cases outcome <;> rfl

def Phase.takingBy (hook : Hook) (p : Phase α) : Option (List (Delivery α)) :=
  match p.hook? with
  | some (current, a) => if current = hook then a.taking else none
  | none => none

def Delivery.chars : Delivery α → List Char
  | .write c => [c]
  | _ => []

theorem Activity.next?_of_taking {owner : Owner α} {scope : Scope} {a : Activity α}
    {steps : List (Delivery α)} (h : a.taking = some steps) : a.next? owner scope = none := by
  unfold taking at h
  unfold next?
  split at h
  · rename_i ha
    cases owner <;> simp only [ha]
  · cases h

theorem Activity.next?_worker {n : Nat} {item : WorkItem α} {scope : Scope} {a : Activity α}
    (ha : a.emitting = none) : a.next? (.worker n item) scope = none := by
  simp only [next?, ha]

theorem Activity.next?_nil {owner : Owner α} {scope : Scope} {a : Activity α}
    (ha : a.emitting = none) (hscript : a.script = []) : a.next? owner scope = none := by
  cases owner <;> simp only [next?, ha, hscript, List.head?_nil, Option.bind_none]

theorem Activity.next?_hook {hook : Hook} {scope : Scope} {a : Activity α} {action : Action α}
    {rest : Script α} (ha : a.emitting = none) (hscript : a.script = action :: rest) :
    a.next? (.hook hook) scope = (action.does none scope).toOption.join := by
  simp only [next?, ha, hscript, List.head?_cons, Option.bind_some]

namespace Machine

variable {m m' m₁ : Machine α} {move : Move α} {n : Nat} {w : Worker α} {owner : Owner α}
  {a : Activity α} {p : Progress α}

/-! ## One step of code -/

/-- What one step of code does to the emission that it is in the middle of. `breaksOff` is a panic
of the sink, which ends the code; the other four leave it in progress, or end it between two
emissions. -/
inductive ActTaking (m m₁ : Machine α) (owner : Owner α) (a : Activity α) (p : Progress α) : Prop
  | still (next : a.next? owner m.scope = none) (taking : p.taking = a.taking)
      (written : m₁.written = m.written) (emissions : m₁.tally.emissions = m.tally.emissions)
  | begins {e : Emission (Output α)} (next : a.next? owner m.scope = some e) (idle : a.taking = none)
      (taking : p.taking = some (m.setup.intake.deliver e)) (written : m₁.written = m.written)
      (emissions : m₁.tally.emissions = m.tally.emissions.enter)
  | delivers {d : Delivery α} {steps : List (Delivery α)} (was : a.taking = some (d :: steps))
      (taking : p.taking = some steps) (written : m₁.written = m.written ++ d.chars)
      (emissions : m₁.tally.emissions = m.tally.emissions)
  | ends (was : a.taking = some []) (taking : p.taking = none) (written : m₁.written = m.written)
      (emissions : m₁.tally.emissions = m.tally.emissions.complete)
  | breaksOff {steps : List (Delivery α)} (was : a.taking = some (.crash :: steps))
      (taking : p.taking = none)
      (written : m₁.written = m.written) (emissions : m₁.tally.emissions = m.tally.emissions.lose)

theorem actTaking_of_write {steps : List (Delivery α)} (ha : a.emitting = some (.writing steps))
    (h : m.write owner { a with wait := .nothing } steps = (m₁, p)) : ActTaking m m₁ owner a p := by
  have hwas : a.taking = some steps := by rw [Activity.taking, ha]
  cases steps with
  | nil => cases owner <;> cases h <;> exact .ends hwas rfl rfl rfl
  | cons d steps =>
    cases d with
    | crash => cases owner <;> cases h <;> exact .breaksOff hwas rfl rfl rfl
    | write c =>
      cases h
      exact .delivers hwas rfl rfl rfl
    | _ =>
      cases h
      exact .delivers hwas rfl (List.append_nil _).symm rfl

theorem actTaking_of_request {m₀ : Machine α} {b : Activity α} {e : Emission (Output α)}
    (ha : a.emitting = none) (h : m₀.requestEmission owner b e = (m₁, p))
    (hsetup : m₀.setup = m.setup) (hwritten : m₀.written = m.written)
    (hemissions : m₀.tally.emissions = m.tally.emissions)
    (hnext : ∀ hook, owner = .hook hook → a.next? owner m.scope = some e) :
    ActTaking m m₁ owner a p := by
  have hidle : a.taking = none := by rw [Activity.taking, ha]
  cases owner with
  | hook hook =>
    cases h
    refine .begins (hnext hook rfl) hidle ?_ hwritten (congrArg Activeness.enter hemissions)
    rw [← hsetup]
    rfl
  | worker n item =>
    cases h
    exact .still (Activity.next?_worker ha) hidle.symm hwritten hemissions

theorem actTaking_of_performed {action : Action α} {rest : Script α} (ha : a.emitting = none)
    (hscript : a.script = action :: rest)
    (h : Performed m owner { a with script := rest, wait := .nothing } action m₁ p) :
    ActTaking m m₁ owner a p := by
  have hidle : a.taking = none := by rw [Activity.taking, ha]
  -- In a hook the sink begins with what the action emits, and in a worker with nothing yet.
  have hnext {hook : Hook} {result : Except Outcome (Option (Emission (Output α)))}
      (does : action.does owner.element? m.scope = result) :
      owner = .hook hook → a.next? owner m.scope = result.toOption.join := by
    rintro rfl
    rw [Activity.next?_hook ha hscript, ← does]
    rfl
  have hcalm {result : Except Outcome (Option (Emission (Output α)))}
      (does : action.does owner.element? m.scope = result) (hnone : result.toOption.join = none) :
      a.next? owner m.scope = none := by
    cases owner with
    | hook => exact (hnext does rfl).trans hnone
    | worker => exact Activity.next?_worker ha
  cases h with
  | requests does request =>
    exact actTaking_of_request ha request rfl rfl rfl fun hook => hnext does
  | goesOn does emissions =>
    refine .still (hcalm does rfl) ?_ rfl emissions
    rw [Progress.taking, Activity.taking, ha, hidle]
  | ends does => exact .still (hcalm does rfl) hidle.symm rfl rfl
  | denied permit worker =>
    cases owner with
    | hook => cases worker
    | worker => exact .still (Activity.next?_worker ha) hidle.symm rfl rfl

theorem actTaking (h : m.act owner a = (m₁, p)) : ActTaking m m₁ owner a p := by
  cases acted h with
  | granted queued | begins queued =>
    exact .begins (by simp only [Activity.next?, queued]) (by rw [Activity.taking, queued]) rfl rfl
      rfl
  | writes writing write => exact actTaking_of_write writing write
  | permitted idle =>
    refine .still (Activity.next?_worker idle) ?_ rfl rfl
    rw [Progress.taking, Activity.taking, Activity.taking, idle]
  | denied idle =>
    exact .still (Activity.next?_worker idle) (by rw [Activity.taking, idle]; rfl) rfl rfl
  | returns idle script =>
    exact .still (Activity.next?_nil idle script) (by rw [Activity.taking, idle]; rfl) rfl rfl
  | performs idle script performed => exact actTaking_of_performed idle script performed

/-! ## One step of the engine -/

/-- The steps that are left of the emission that the sink takes in from this emitter. As a function
of the emitter it makes "at most one" a statement about a single map (`eq_of_takes`). -/
def takingBy (m : Machine α) : Emitter → Option (List (Delivery α))
  | .hook hook => m.producer.takingBy hook
  | .worker n => m.workers[n]?.bind (·.phase.taking)

def Takes (m : Machine α) (k : Emitter) : Prop := (m.takingBy k).isSome = true

/-- The emission with which this move lets the sink begin. It is told from the state before the
move, so that a run can be read off its moves (`Machine.emitted`). -/
def makes (m : Machine α) : Move α → Option (Emitter × Emission (Output α))
  | .worker n =>
    match m.workers[n]? with
    | some ⟨item, .working a⟩ => (a.next? (.worker n item) m.scope).map (.worker n, ·)
    | _ => none
  | .producer =>
    match m.producer.hook? with
    | some (hook, a) => (a.next? (.hook hook) m.scope).map (.hook hook, ·)
    | none => none
  | _ => none

/-- This move drops the task of a worker, or the call of a hook. A task may be dropped from outside,
or by the backend within the producer's call. -/
def Drops (m : Machine α) (move : Move α) : Emitter → Prop
  | .hook _ => move = .abandon
  | .worker n =>
    move = .drop n ∨ move = .producer ∧ m.producer = .polling n ∧ m.verdict n ≠ .run

/-- What one step does to the emissions that the sink is taking in. One is broken off when the sink
panics, or when the code that makes it is dropped; in each case the map `Machine.takingBy` changes
at one emitter at most. -/
inductive EmissionStep (m m' : Machine α) (move : Move α) : Prop
  | still (makes : m.makes move = none) (taking : m'.takingBy = m.takingBy)
      (written : m'.written = m.written) (emissions : m'.tally.emissions = m.tally.emissions)
  | begins {k : Emitter} {e : Emission (Output α)} (makes : m.makes move = some (k, e))
      (idle : m.takingBy k = none)
      (taking : m'.takingBy = Function.update m.takingBy k (some (m.setup.intake.deliver e)))
      (written : m'.written = m.written) (emissions : m'.tally.emissions = m.tally.emissions.enter)
  | delivers {k : Emitter} {d : Delivery α} {steps : List (Delivery α)}
      (makes : m.makes move = none) (was : m.takingBy k = some (d :: steps))
      (taking : m'.takingBy = Function.update m.takingBy k (some steps))
      (written : m'.written = m.written ++ d.chars)
      (emissions : m'.tally.emissions = m.tally.emissions)
  | ends {k : Emitter} (makes : m.makes move = none) (was : m.takingBy k = some [])
      (taking : m'.takingBy = Function.update m.takingBy k none) (written : m'.written = m.written)
      (emissions : m'.tally.emissions = m.tally.emissions.complete)
  | breaksOff {k : Emitter} {steps : List (Delivery α)} (makes : m.makes move = none)
      (was : m.takingBy k = some steps) (taking : m'.takingBy = Function.update m.takingBy k none)
      (written : m'.written = m.written) (emissions : m'.tally.emissions = m.tally.emissions.lose)
      (cause : .crash ∈ steps ∨ m.Drops move k)

theorem takingBy_congr (hproducer : ∀ hook, m'.producer.takingBy hook = m.producer.takingBy hook)
    (hworkers : m'.workers = m.workers) : m'.takingBy = m.takingBy := by
  funext k
  cases k with
  | hook hook => exact hproducer hook
  | worker n => rw [takingBy, takingBy, hworkers]

theorem takingBy_of_worker (hw : m.workers[n]? = some w) :
    m.takingBy (.worker n) = w.phase.taking := by
  rw [takingBy, hw]
  rfl

theorem takingBy_of_hook {hook : Hook} (hp : m.producer.hook? = some (hook, a)) :
    m.takingBy (.hook hook) = a.taking := by
  rw [takingBy, Phase.takingBy, hp]
  exact if_pos rfl

theorem takingBy_setPhase {q : WorkerPhase α} (hw : m.workers[n]? = some w)
    (hproducer : ∀ hook, m'.producer.takingBy hook = m.producer.takingBy hook)
    (hworkers : m'.workers = (m.setPhase n q).workers) :
    m'.takingBy = Function.update m.takingBy (.worker n) q.taking := by
  funext k
  cases k with
  | hook hook =>
    have hne : Emitter.hook hook ≠ .worker n := nofun
    rw [Function.update_of_ne hne]
    exact hproducer hook
  | worker i =>
    by_cases hi : i = n
    · subst hi
      rw [Function.update_self, takingBy, hworkers, setPhase_self hw]
      rfl
    · have hne : Emitter.worker i ≠ .worker n := fun heq => hi (Emitter.worker.inj heq)
      rw [Function.update_of_ne hne, takingBy, hworkers, setPhase_other hi, takingBy]

theorem takingBy_hook {hook : Hook} (hp : m.producer.hook? = some (hook, a))
    (hp' : m'.producer.hook? = p.code?.map (hook, ·)) (hworkers : m'.workers = m.workers) :
    m'.takingBy = Function.update m.takingBy (.hook hook) p.taking := by
  funext k
  cases k with
  | worker n =>
    have hne : Emitter.worker n ≠ .hook hook := nofun
    rw [Function.update_of_ne hne, takingBy, hworkers, takingBy]
  | hook other =>
    by_cases hother : other = hook
    · subst hother
      rw [Function.update_self, takingBy, Phase.takingBy, hp']
      cases p with
      | going a' => simp [Progress.code?, Progress.taking]
      | «over» => rfl
    · have hne : Emitter.hook other ≠ .hook hook := fun heq => hother (Emitter.hook.inj heq)
      rw [Function.update_of_ne hne, takingBy, takingBy, Phase.takingBy, Phase.takingBy, hp', hp]
      cases p <;> simp [Progress.code?, Ne.symm hother]

theorem EmissionStep.of_act {k : Emitter} (hact : ActTaking m m₁ owner a p)
    (hmakes : m.makes move = (a.next? owner m.scope).map (k, ·)) (hwas : m.takingBy k = a.taking)
    (htaking : m'.takingBy = Function.update m.takingBy k p.taking)
    (hwritten : m'.written = m₁.written)
    (hemissions : m'.tally.emissions = m₁.tally.emissions) : EmissionStep m m' move := by
  cases hact with
  | still next taking written emissions =>
    refine .still (by rw [hmakes, next]; rfl) ?_ (hwritten.trans written)
      (hemissions.trans emissions)
    rw [htaking, taking, ← hwas, Function.update_eq_self]
  | begins next idle taking written emissions =>
    exact .begins (by rw [hmakes, next]; rfl) (hwas.trans idle) (by rw [htaking, taking])
      (hwritten.trans written) (hemissions.trans emissions)
  | delivers was taking written emissions =>
    exact .delivers (by rw [hmakes, Activity.next?_of_taking was]; rfl) (hwas.trans was)
      (by rw [htaking, taking]) (hwritten.trans written) (hemissions.trans emissions)
  | ends was taking written emissions =>
    exact .ends (by rw [hmakes, Activity.next?_of_taking was]; rfl) (hwas.trans was)
      (by rw [htaking, taking]) (hwritten.trans written) (hemissions.trans emissions)
  | breaksOff was taking written emissions =>
    exact .breaksOff (by rw [hmakes, Activity.next?_of_taking was]; rfl) (hwas.trans was)
      (by rw [htaking, taking]) (hwritten.trans written) (hemissions.trans emissions)
      (Or.inl List.mem_cons_self)

theorem EmissionStep.of_loss {k : Emitter} (hmakes : m.makes move = none)
    (hwas : m.takingBy k = a.taking) (htaking : m'.takingBy = Function.update m.takingBy k none)
    (hwritten : m'.written = m.written)
    (hemissions : m'.tally.emissions =
      if a.taking.isSome then m.tally.emissions.lose else m.tally.emissions)
    (hdrops : m.Drops move k) : EmissionStep m m' move := by
  cases hsteps : a.taking with
  | none =>
    rw [hsteps] at hwas hemissions
    refine .still hmakes ?_ hwritten hemissions
    rw [htaking, ← hwas, Function.update_eq_self]
  | some steps =>
    rw [hsteps] at hwas hemissions
    exact .breaksOff hmakes hwas htaking hwritten hemissions (Or.inr hdrops)

theorem EmissionStep.of_worker {q : WorkerPhase α} (hw : m.workers[n]? = some w)
    (hmakes : m.makes move = none)
    (hproducer : ∀ hook, m'.producer.takingBy hook = m.producer.takingBy hook)
    (hworkers : m'.workers = (m.setPhase n q).workers) (hold : w.phase.taking = none)
    (hnew : q.taking = none) (hwritten : m'.written = m.written)
    (hemissions : m'.tally.emissions = m.tally.emissions) : EmissionStep m m' move := by
  refine .still hmakes ?_ hwritten hemissions
  rw [takingBy_setPhase hw hproducer hworkers, hnew, ← hold, ← takingBy_of_worker hw,
    Function.update_eq_self]

theorem lose_emissions (m : Machine α) (n : Nat) (a : Activity α) :
    (m.lose n a).written = m.written ∧ (m.lose n a).tally.emissions =
      if a.taking.isSome then m.tally.emissions.lose else m.tally.emissions := by
  unfold lose Activity.taking
  cases a.emitting with
  | none => cases a.wait <;> exact ⟨rfl, rfl⟩
  | some emitting => cases emitting <;> cases a.wait <;> exact ⟨rfl, rfl⟩

theorem takingBy_lose (hw : m.workers[n]? = some w) (a : Activity α) :
    (m.lose n a).takingBy = Function.update m.takingBy (.worker n) none := by
  have hproducer := (SameCall.lose m n a).producer
  have hworkers := (m.lose_workers n a).1
  exact takingBy_setPhase (q := .offering ⟨n, m.minted, .lost n⟩ .lost) hw
    (fun hook => by rw [hproducer]) hworkers

theorem forsakeHook_emissions (m : Machine α) (a : Activity α) :
    (m.forsakeHook a).written = m.written ∧ (m.forsakeHook a).tally.emissions =
      if a.taking.isSome then m.tally.emissions.lose else m.tally.emissions := by
  unfold forsakeHook Activity.taking
  cases a.emitting with
  | none => exact ⟨rfl, rfl⟩
  | some emitting => cases emitting <;> exact ⟨rfl, rfl⟩

theorem workEnded_emissions (m : Machine α) (n : Nat) (outcome : Outcome) :
    (m.workEnded n outcome).written = m.written ∧
      (m.workEnded n outcome).tally.emissions = m.tally.emissions := by
  cases outcome <;> exact ⟨rfl, rfl⟩

theorem close_emissions (m : Machine α) (n : Nat) (e : Ending) :
    (m.close n e).written = m.written ∧
      (m.close n e).tally.emissions = m.tally.emissions := by
  unfold close
  cases e with
  | failed => dsimp only; split <;> exact ⟨rfl, rfl⟩
  | _ => exact ⟨rfl, rfl⟩

theorem startEnded_leaves (m : Machine α) (outcome : Outcome) :
    (m.startEnded outcome).producer = .idle ∧ (m.startEnded outcome).workers = m.workers ∧
      (m.startEnded outcome).written = m.written ∧ (m.startEnded outcome).tally = m.tally := by
  cases outcome <;> exact ⟨rfl, rfl, rfl, rfl⟩

theorem finishEnded_leaves (m : Machine α) (outcome : Outcome) :
    (m.finishEnded outcome).producer = .idle ∧ (m.finishEnded outcome).workers = m.workers ∧
      (m.finishEnded outcome).written = m.written ∧ (m.finishEnded outcome).tally = m.tally := by
  cases outcome <;> exact ⟨rfl, rfl, rfl, rfl⟩

theorem makes_of_worker (hw : m.workers[n]? = some w) (hphase : w.phase = .working a) :
    m.makes (.worker n) = (a.next? (.worker n w.item) m.scope).map (.worker n, ·) := by
  obtain ⟨item, phase⟩ := w
  obtain rfl : phase = .working a := hphase
  simp only [makes, hw]

theorem makes_of_idle_worker (hw : m.workers[n]? = some w) (hidle : ∀ a, w.phase ≠ .working a) :
    m.makes (.worker n) = none := by
  simp only [makes, hw]
  split
  · rename_i heq
    obtain rfl := Option.some.inj heq
    exact absurd rfl (hidle _)
  · rfl

theorem makes_of_hook {hook : Hook} (hp : m.producer.hook? = some (hook, a)) :
    m.makes .producer = (a.next? (.hook hook) m.scope).map (.hook hook, ·) := by
  simp only [makes, hp]

theorem makes_of_no_hook (hp : m.producer.hook? = none) : m.makes .producer = none := by
  simp only [makes, hp]

theorem emissionStep_of_worker (hw : m.workers[n]? = some w) (h : WorkerStep m n w m') :
    EmissionStep m m' (.worker n) := by
  have haside {q : WorkerPhase α} (q' : WorkerPhase α) (phase : w.phase = q)
      (hq : ∀ a, q ≠ .working a) (hproducer : m'.producer = m.producer)
      (hworkers : m'.workers = (m.setPhase n q').workers) (hnew : q'.taking = none)
      (hwritten : m'.written = m.written)
      (hemissions : m'.tally.emissions = m.tally.emissions) : EmissionStep m m' (.worker n) := by
    refine .of_worker hw (makes_of_idle_worker hw (phase ▸ hq)) (fun hook => by rw [hproducer])
      hworkers ?_ hnew hwritten hemissions
    rw [phase]
    cases q with
    | working a => exact absurd rfl (hq a)
    | _ => rfl
  cases h with
  | begin phase =>
    exact haside (.working { script := w.item.script }) phase (fun _ heq => by cases heq) rfl rfl
      rfl rfl rfl
  | @goOn a a' m₁ phase _ hact =>
    refine .of_act (actTaking hact) (makes_of_worker hw phase)
      (by rw [takingBy_of_worker hw, phase]; rfl) ?_ rfl rfl
    obtain ⟨_, _, _, _, _, _, rfl⟩ := act_eq hact
    exact takingBy_setPhase (q := .working a') hw (fun _ => rfl) rfl
  | @finish a outcome m₁ phase _ hact =>
    obtain ⟨hwritten, hemissions⟩ := m₁.workEnded_emissions n outcome
    refine .of_act (actTaking hact) (makes_of_worker hw phase)
      (by rw [takingBy_of_worker hw, phase]; rfl) ?_ hwritten hemissions
    obtain ⟨tally, minted, -, heq⟩ := m₁.workEnded_eq n outcome
    have hproducer : (m₁.workEnded n outcome).producer = m.producer := by
      rw [heq]
      obtain ⟨_, _, _, _, _, _, rfl⟩ := act_eq hact
      rfl
    rw [← Progress.phase_taking n m₁.minted]
    exact takingBy_setPhase hw (fun hook => by rw [hproducer]) (finish_workers hact n)
  | @offer f e phase =>
    rcases m.offer_cases n f e with ⟨-, heq⟩ | ⟨_, -, heq⟩
    all_goals rw [heq] at haside ⊢
    · exact haside (.leaving e) phase (fun _ heq => by cases heq) rfl rfl rfl rfl rfl
    · exact haside (.counting f e) phase (fun _ heq => by cases heq) rfl rfl rfl rfl rfl
  | @count f e phase =>
    exact haside (.leaving e) phase (fun _ heq => by cases heq) rfl rfl rfl rfl rfl
  | @leave e phase =>
    exact haside (.closing e) phase (fun _ heq => by cases heq) rfl rfl rfl rfl rfl
  | @close e phase =>
    obtain ⟨hwritten, hemissions⟩ := m.close_emissions n e
    obtain ⟨tally, log, heq⟩ := m.close_eq n e
    have hworkers : (m.close n e).workers = (m.setPhase n (.ended e)).workers := by rw [heq]
    exact haside (.ended e) phase (fun _ heq => by cases heq) (by rw [heq]; rfl) hworkers rfl
      hwritten hemissions

theorem Phase.takingBy_of_no_hook {p : Phase α} (hp : p.hook? = none) (hook : Hook) :
    p.takingBy hook = none := by
  rw [Phase.takingBy, hp]

/-- Where a call runs no hook, before or after, and no worker goes on, nothing is emitted. Most
constructors of `Transition` are cases of this. -/
theorem EmissionStep.outside (hmakes : m.makes move = none) (old : m.producer.hook? = none)
    (new : m'.producer.hook? = none) (workers : m'.workers = m.workers)
    (written : m'.written = m.written) (emissions : m'.tally.emissions = m.tally.emissions) :
    EmissionStep m m' move := by
  refine .still hmakes (takingBy_congr (fun hook => ?_) workers) written emissions
  rw [Phase.takingBy_of_no_hook new, Phase.takingBy_of_no_hook old]

theorem EmissionStep.beside {q : WorkerPhase α} (old : m.producer.hook? = none)
    (new : m'.producer.hook? = none) (hw : m.workers[n]? = some w) (hold : w.phase.taking = none)
    (hnew : q.taking = none) (workers : m'.workers = (m.setPhase n q).workers)
    (written : m'.written = m.written) (emissions : m'.tally.emissions = m.tally.emissions) :
    EmissionStep m m' .producer := by
  refine .of_worker hw (makes_of_no_hook old) (fun hook => ?_) workers hold hnew written emissions
  rw [Phase.takingBy_of_no_hook new, Phase.takingBy_of_no_hook old]

theorem takingBy_concat {item : WorkItem α} (old : m.producer.hook? = none)
    (new : m'.producer.hook? = none) (workers : m'.workers = m.workers ++ [⟨item, .queued⟩]) :
    m'.takingBy = m.takingBy := by
  funext k
  cases k with
  | hook hook =>
    exact (Phase.takingBy_of_no_hook new hook).trans (Phase.takingBy_of_no_hook old hook).symm
  | worker n =>
    rw [takingBy, takingBy, workers]
    rcases Nat.lt_trichotomy n m.workers.length with hn | rfl | hn
    · rw [List.getElem?_append_left hn]
    · rw [List.getElem?_concat_length, List.getElem?_eq_none (Nat.le_refl _)]
      rfl
    · rw [List.getElem?_eq_none (Nat.le_of_lt hn), List.getElem?_eq_none]
      rw [List.length_append]
      exact hn

theorem EmissionStep.of_hook {hook : Hook} (hp : m.producer.hook? = some (hook, a))
    (hact : m.act (.hook hook) a = (m₁, p)) (next : m'.producer.hook? = p.code?.map (hook, ·))
    (workers : m'.workers = m₁.workers) (written : m'.written = m₁.written)
    (tally : m'.tally = m₁.tally) : EmissionStep m m' .producer :=
  .of_act (actTaking hact) (makes_of_hook hp) (takingBy_of_hook hp)
    (takingBy_hook hp next (workers.trans (act_workers hact))) written (by rw [tally])

theorem EmissionStep.of_dropPolled (phase : m.producer = .polling n)
    (hw : m.workers[n]? = some w) (working : w.phase = .working a) (hverdict : m.verdict n ≠ .run) :
    EmissionStep m (lose { m with producer := .dropping n } n a) .producer := by
  have old : m.producer.hook? = none := by rw [phase]; rfl
  obtain ⟨hwritten, hemissions⟩ := lose_emissions { m with producer := .dropping n } n a
  have hlent : ({ m with producer := .dropping n } : Machine α).takingBy = m.takingBy := by
    refine takingBy_congr (fun hook => ?_) rfl
    rw [Phase.takingBy_of_no_hook rfl, Phase.takingBy_of_no_hook old]
  have hdrops : m.Drops .producer (.worker n) := Or.inr ⟨rfl, phase, hverdict⟩
  refine .of_loss (makes_of_no_hook old) (by rw [takingBy_of_worker hw, working]; rfl) ?_ hwritten
    hemissions hdrops
  rw [← hlent]
  have hw : ({ m with producer := .dropping n } : Machine α).workers[n]? = some w := hw
  exact takingBy_lose hw a

theorem emissionStep_of_producer (h : ProducerStep m m') : EmissionStep m m' .producer := by
  cases h with
  | startOn phase hact | finishOn phase hact =>
    exact .of_hook (by rw [phase]; rfl) hact rfl rfl rfl rfl
  | @startEnd a outcome m₁ phase hact =>
    obtain ⟨hidle, hworkers, hwritten, htally⟩ := m₁.startEnded_leaves outcome
    exact .of_hook (by rw [phase]; rfl) hact (by rw [hidle]; rfl) hworkers hwritten htally
  | @finishEnd a outcome m₁ phase hact =>
    obtain ⟨hidle, hworkers, hwritten, htally⟩ := m₁.finishEnded_leaves outcome
    exact .of_hook (by rw [phase]; rfl) hact (by rw [hidle]; rfl) hworkers hwritten htally
  | ask phase =>
    have old : m.producer.hook? = none := by rw [phase]; rfl
    unfold askTicket askGate
    split
    · exact .outside (makes_of_no_hook old) old old rfl rfl rfl
    all_goals exact .outside (makes_of_no_hook old) old rfl rfl rfl rfl
  | check phase =>
    have old : m.producer.hook? = none := by rw [phase]; rfl
    unfold check
    split <;> exact .outside (makes_of_no_hook old) old rfl rfl rfl rfl
  | @hand item phase =>
    have old : m.producer.hook? = none := by rw [phase]; rfl
    rcases m.hand_cases item with ⟨-, heq⟩ | ⟨-, heq⟩ | ⟨-, -, heq⟩
    all_goals
      rw [heq]
      exact .still (makes_of_no_hook old) (takingBy_concat old rfl rfl) rfl rfl
  | keep phase | refusalCaptured phase | refusalLate phase | refusalCounted phase =>
    have old : m.producer.hook? = none := by rw [phase]; rfl
    exact .outside (makes_of_no_hook old) old rfl rfl rfl rfl
  | dropPolled phase worker verdict working => exact .of_dropPolled phase worker working verdict
  | dropQueued phase worker queued =>
    have old : m.producer.hook? = none := by rw [phase]; rfl
    exact .beside old old worker (by rw [queued]; rfl) rfl rfl rfl rfl
  | @answer n w e phase worker closing =>
    have old : m.producer.hook? = none := by
      rcases phase with phase | ⟨phase, -⟩
      all_goals rw [phase]; rfl
    rcases (m.setPhase n (.ended e)).verdictOf_cases n with ⟨-, heq⟩ | ⟨-, heq⟩
    all_goals
      rw [heq]
      exact .beside old rfl worker (by rw [closing]; rfl) rfl rfl rfl rfl
  | drain phase =>
    have old : m.producer.hook? = none := by rw [phase]; rfl
    unfold askEverything askGate
    split
    · exact .outside (makes_of_no_hook old) old old rfl rfl rfl
    all_goals exact .outside (makes_of_no_hook old) old rfl rfl rfl rfl
  | conclude phase =>
    have old : m.producer.hook? = none := by rw [phase]; rfl
    unfold conclude
    split
    · exact .outside (makes_of_no_hook old) old rfl rfl rfl rfl
    · -- The hook that is called now has not begun to emit.
      refine .still (makes_of_no_hook old) (takingBy_congr (fun hook => ?_) rfl) rfl rfl
      rw [Phase.takingBy_of_no_hook old]
      cases hook <;> rfl

/-- Every step lets the sink begin with one emission, go on with one, or be done with it, or breaks
one off, or does nothing to them. `EmissionStep` is all that the results on the sink need to know of
a transition. -/
theorem emissionStep (h : Transition m move m') : EmissionStep m m' move := by
  have hgone {m₁ : Machine α} {a : Activity α} {hook : Hook}
      (hp : m.producer.hook? = some (hook, a)) (hidle : m₁.producer = .idle)
      (hworkers : m₁.workers = m.workers) (hwritten : m₁.written = (m.forsakeHook a).written)
      (hemissions : m₁.tally.emissions = (m.forsakeHook a).tally.emissions) :
      EmissionStep m m₁ .abandon := by
    obtain ⟨hwritten', hemissions'⟩ := m.forsakeHook_emissions a
    have hnext : m₁.producer.hook? = (Progress.over .returned).code?.map (hook, ·) := by
      rw [hidle]
      rfl
    exact .of_loss rfl (takingBy_of_hook hp) (takingBy_hook hp hnext hworkers)
      (hwritten.trans hwritten') (hemissions.trans hemissions') rfl
  cases h with
  | violation idle | submit idle | finish idle =>
    have hp : m.producer.hook? = none := by rw [idle]; rfl
    exact .outside rfl hp rfl rfl rfl rfl
  | start idle =>
    refine .still rfl (takingBy_congr (fun hook => ?_) rfl) rfl rfl
    rw [idle]
    cases hook <;> rfl
  | abandonWait phase =>
    have hp : m.producer.hook? = none := by
      rcases phase with ⟨item, phase⟩ | phase
      all_goals rw [phase]; rfl
    exact .outside rfl hp rfl rfl rfl rfl
  | @abandonStart a phase | @abandonFinish a phase =>
    have hworkers : (m.forsakeHook a).workers = m.workers := by
      obtain ⟨tally, heq⟩ := m.forsakeHook_eq a
      rw [heq]
    exact hgone (by rw [phase]; rfl) rfl hworkers rfl rfl
  | producer step => exact emissionStep_of_producer step
  | worker hw step => exact emissionStep_of_worker hw step
  | @drop n w _ hw _ step =>
    cases step with
    | queued phase => exact .of_worker hw rfl (fun _ => rfl) rfl (by rw [phase]; rfl) rfl rfl rfl
    | @working a phase =>
      obtain ⟨hwritten, hemissions⟩ := m.lose_emissions n a
      exact .of_loss rfl (by rw [takingBy_of_worker hw, phase]; rfl) (takingBy_lose hw a) hwritten
        hemissions (Or.inl rfl)
  | cancel => exact .still rfl rfl rfl rfl
  | @world move hworld =>
    have hmakes : m.makes move = none := by
      cases move <;> first | rfl | cases hworld
    exact .still hmakes rfl rfl rfl

/-! ## A run -/

/-- The emissions with which the sink has begun in a run, each with its emitter. One that was broken
off later is among them, which is why `Machine.Unbroken` is a condition on texts. -/
def emitted (m : Machine α) : List (Move α) → List (Emitter × Emission (Output α))
  | [] => []
  | move :: moves =>
    match m.step move with
    | none => []
    | some m' => (m.makes move).toList ++ m'.emitted moves

theorem emitted_concat {m₀ : Machine α} {moves : List (Move α)} (hrun : m₀.run moves = some m)
    (hstep : m.step move = some m') :
    m₀.emitted (moves ++ [move]) = m₀.emitted moves ++ (m.makes move).toList := by
  induction moves generalizing m₀ with
  | nil =>
    cases hrun
    simp [emitted, hstep]
  | cons first moves ih =>
    obtain ⟨m₁, h₁, h₂⟩ := Option.bind_eq_some_iff.mp hrun
    simp only [List.cons_append, emitted, h₁, ih h₂, List.append_assoc]

end Machine

end WorkBundle
