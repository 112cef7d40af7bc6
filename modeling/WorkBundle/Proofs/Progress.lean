import WorkBundle.Proofs.Lock
import WorkBundle.Proofs.Settled
import WorkBundle.Proofs.WorkLeft
import Mathlib.Algebra.Order.BigOperators.Group.List
import Mathlib.Algebra.Order.Group.Nat

/-!
# A bundle does not get stuck

Code is *prompt* if it waits for nothing but the clock, its turn, and the output lock. Where all
code is prompt, a bundle that has no result yet can go on, at the latest when some time has passed
(`Run.Live.progress`): a call that waits at the gate waits for a worker that holds a ticket; if that
worker waits for the lock, then another one has it or is about to get it, and that one does not
wait. Since work is finite, such a bundle can always be run to its end (`Run.Live.canEnd`).
-/

set_option autoImplicit false

namespace WorkBundle

variable {α : Type}

/-- The action waits for nobody else. A `latch` or a `permit` is granted from outside, by nobody
whom the engine could wait for. -/
def Action.IsPrompt : Action α → Prop
  | .latch _ | .permit => False
  | _ => True

theorem Activity.All.not_awaiting {a : Activity α} (h : a.All Action.IsPrompt) :
    (∀ name, a.wait ≠ .latch name) ∧ a.wait ≠ .supply := by
  constructor
  · intro name hwait
    exact h.wait (.latch name) (by rw [hwait]; rfl)
  · intro hwait
    exact h.wait .permit (by rw [hwait]; rfl)

/-- All code of a bundle of these items is prompt: every action of a hook or an item is one that
`IsPrompt`. -/
structure Setup.IsPrompt (s : Setup α) (items : List (WorkItem α)) : Prop where
  hooks : ∀ hook, ∀ action ∈ s.processor.script hook, action.IsPrompt
  items : ∀ item ∈ items, ∀ action ∈ item.script, action.IsPrompt

namespace Machine

variable {m m' m₁ : Machine α} {move : Move α} {n : Nat} {w : Worker α} {a : Activity α}
  {all : List (WorkItem α)}

/-! ## Prompt code -/

/-- The code in progress is prompt, and no hook waits for the lock. A hook needs no lock to emit, as
the bare scope hands its emissions to the sink directly. -/
structure Prompt (m : Machine α) (all : List (WorkItem α)) : Prop where
  setup : m.setup.IsPrompt all
  workers : m.EachCode Action.IsPrompt
  hook : ∀ hook a, m.producer.hook? = some (hook, a) → a.All Action.IsPrompt ∧ a.wait ≠ .lock

namespace Prompt

theorem fresh (h : m.setup.IsPrompt all) (hook : Hook) :
    ({ script := m.setup.processor.script hook } : Activity α).All Action.IsPrompt :=
  ⟨h.hooks hook, fun _ ha => nomatch ha⟩

theorem new {setup : Setup α} (scope : Scope) (h : setup.IsPrompt all) :
    (Machine.new setup scope).Prompt all := by
  refine ⟨h, ?_, ?_⟩
  · intro n w a hw
    cases hw
  · intro hook a hp
    cases hp

theorem step (h : m.Prompt all) (hs : CodeStep m m' move) (hsetup : m'.setup = m.setup)
    (hinner : move.isInner = true) (hitem : ∀ item, m.producer = .handing item → item ∈ all) :
    m'.Prompt all := by
  refine ⟨hsetup ▸ h.setup, h.workers.step hs fun item hp => h.setup.items item (hitem item hp), ?_⟩
  have hsilent (silent : m.Silent m' move) : ∀ hook a, m'.producer.hook? = some (hook, a) →
      a.All Action.IsPrompt ∧ a.wait ≠ .lock := by
    intro hook a hp
    rcases silent.hook hinner with hsame | ⟨-, hbegins⟩
    · exact h.hook hook a (hsame ▸ hp)
    · rw [hbegins] at hp
      cases hp
      exact ⟨fresh h.setup .finish, nofun⟩
  cases hs with
  | still silent | more silent | aside silent => exact hsilent silent
  | worker _ _ _ _ _ producer =>
    rw [producer]
    exact h.hook
  | @hook hook a p m₁ phase hact _ _ next =>
    intro hook' b hp
    rw [next] at hp
    cases p with
    | «over» => cases hp
    | going a' =>
      cases hp
      refine ⟨act_all hact (h.hook hook a phase).1, fun hwait => ?_⟩
      exact (lock_of_hook hact).2 ((isCoherent_of_act hact).mp hwait)

theorem beginCall (h : m.Prompt all) (c : Call α) :
    (m.beginCall c).Prompt all := by
  have hnone {m₁ : Machine α} (hsetup : m₁.setup = m.setup) (hworkers : m₁.workers = m.workers)
      (hp : m₁.producer.hook? = none) : m₁.Prompt all := by
    refine ⟨hsetup ▸ h.setup, ?_, fun hook a ha => by cases hp.symm.trans ha⟩
    rw [EachCode, hworkers]
    exact h.workers
  cases c with
  | start =>
    unfold Machine.beginCall
    dsimp only
    split
    · refine ⟨h.setup, h.workers, fun hook a ha => ?_⟩
      cases ha
      exact ⟨fresh h.setup .start, nofun⟩
    all_goals exact hnone rfl rfl rfl
  | submit | finish =>
    unfold Machine.beginCall
    dsimp only
    split
    all_goals exact hnone rfl rfl rfl

end Prompt

/-! ## Tasks in the hands of the backend -/

/-- The task that the backend has in its hands is still to be seen to its end; and one that it drops
is not at work. So the call that is `polling` or `dropping` is never left waiting. -/
structure Lent (m : Machine α) : Prop where
  polled : ∀ n, m.producer = .polling n →
    ∃ w, m.workers[n]? = some w ∧ ∀ e, w.phase ≠ .ended e
  dropped : ∀ n, m.producer = .dropping n →
    ∃ w, m.workers[n]? = some w ∧ (∀ e, w.phase ≠ .ended e) ∧ ∀ a, w.phase ≠ .working a

namespace Lent

theorem away (h : ∀ n, m.isLent n = false) : m.Lent := by
  refine ⟨fun n hp => ?_, fun n hp => ?_⟩
  · have hlent := h n
    simp [isLent, hp] at hlent
  · have hlent := h n
    simp [isLent, hp] at hlent

theorem same (h : m.Lent) (hproducer : m'.producer = m.producer)
    (hworkers : m'.workers = m.workers) : m'.Lent := by
  refine ⟨?_, ?_⟩
  · rw [hproducer, hworkers]
    exact h.polled
  · rw [hproducer, hworkers]
    exact h.dropped

theorem change (h : m.Lent) {p : WorkerPhase α} (hw : m.workers[n]? = some w)
    (hworkers : m'.workers = (m.setPhase n p).workers) (hproducer : m'.producer = m.producer)
    (hended : m.isLent n = true → ∀ e, p ≠ .ended e)
    (hworking : m.isDropped n = true → ∀ a, p = .working a → ∃ b, w.phase = .working b) :
    m'.Lent := by
  refine ⟨fun k hk => ?_, fun k hk => ?_⟩
  · rw [hproducer] at hk
    rw [hworkers]
    obtain ⟨v, hv, hopen⟩ := h.polled k hk
    by_cases hkn : k = n
    · subst hkn
      exact ⟨_, setPhase_self hw p, hended (by simp [isLent, hk])⟩
    · exact ⟨v, (setPhase_other hkn p).trans hv, hopen⟩
  · rw [hproducer] at hk
    rw [hworkers]
    obtain ⟨v, hv, hopen, hidle⟩ := h.dropped k hk
    by_cases hkn : k = n
    · subst hkn
      refine ⟨_, setPhase_self hw p, hended (by simp [isLent, hk]), fun a ha => ?_⟩
      obtain ⟨b, hb⟩ := hworking (by simp [isDropped, hk]) a ha
      obtain rfl : v = w := Option.some.inj (hv.symm.trans hw)
      exact hidle b hb
    · exact ⟨v, (setPhase_other hkn p).trans hv, hopen, hidle⟩

theorem worker (h : m.Lent) (hw : m.workers[n]? = some w) (hs : WorkerStep m n w m') : m'.Lent := by
  cases hs with
  | begin phase kept =>
    refine h.change hw rfl rfl nofun fun hdropped => ?_
    rw [kept] at hdropped
    cases hdropped
  | @goOn a _ _ phase _ hact =>
    obtain ⟨_, _, _, _, _, _, rfl⟩ := act_eq hact
    exact h.change hw rfl rfl nofun fun _ _ _ => ⟨a, phase⟩
  | @finish a outcome m₁ phase _ hact =>
    obtain ⟨tally, minted, -, heq⟩ := m₁.workEnded_eq n outcome
    rw [heq]
    obtain ⟨_, _, _, _, _, _, rfl⟩ := act_eq hact
    cases outcome <;> exact h.change hw rfl rfl nofun fun _ _ ha => nomatch ha
  | @offer f e =>
    rcases m.offer_cases n f e with ⟨-, heq⟩ | ⟨_, -, heq⟩
    all_goals
      rw [heq]
      exact h.change hw rfl rfl nofun fun _ _ ha => nomatch ha
  | count | leave => exact h.change hw rfl rfl nofun fun _ _ ha => nomatch ha
  | @close e phase kept =>
    obtain ⟨tally, log, heq⟩ := m.close_eq n e
    rw [heq]
    refine h.change hw rfl rfl (fun hlent => ?_) fun _ _ ha => nomatch ha
    rw [kept] at hlent
    cases hlent

theorem producer (h : m.Lent) (hnumbered : m.dispatched = m.workers.length)
    (hs : ProducerStep m m') : m'.Lent := by
  have hidle {m₁ : Machine α} (idle : m₁.producer = .idle) : m₁.Lent :=
    away fun n => by rw [isLent, idle]
  cases hs with
  | startOn | finishOn => exact away fun _ => rfl
  | startEnd | finishEnd => exact hidle (by cases ‹Outcome› <;> rfl)
  | ask phase =>
    unfold askTicket askGate
    split
    · exact h.same rfl rfl
    · exact away fun _ => rfl
    · exact hidle rfl
  | check =>
    unfold check
    split
    · exact hidle rfl
    · exact away fun _ => rfl
  | @hand item =>
    have hnew : (m.enlist item).workers[m.dispatched]? = some ⟨item, .queued⟩ := by
      rw [hnumbered]
      exact List.getElem?_concat_length
    rcases m.hand_cases item with ⟨-, heq⟩ | ⟨-, heq⟩ | ⟨-, -, heq⟩
    · rw [heq]
      refine ⟨fun n hn => ?_, nofun⟩
      cases hn
      exact ⟨_, hnew, nofun⟩
    · rw [heq]
      exact hidle rfl
    · rw [heq]
      refine ⟨nofun, fun n hn => ?_⟩
      cases hn
      exact ⟨_, hnew, nofun, fun _ ha => nomatch ha⟩
  | keep | refusalCaptured | refusalCounted => exact hidle rfl
  | @dropPolled n w a _ worker =>
    obtain ⟨lock, supply, tally, heq⟩ := lose_eq { m with producer := .dropping n } n a
    rw [heq]
    refine ⟨nofun, fun k hk => ?_⟩
    cases hk
    exact ⟨_, setPhase_self worker _, nofun, fun _ ha => nomatch ha⟩
  | dropQueued phase worker => exact h.change worker rfl rfl nofun fun _ _ ha => nomatch ha
  | @answer n w e =>
    rcases (m.setPhase n (.ended e)).verdictOf_cases n with ⟨-, heq⟩ | ⟨-, heq⟩
    · rw [heq]
      exact away fun _ => rfl
    · rw [heq]
      exact hidle rfl
  | refusalLate => exact away fun _ => rfl
  | drain phase =>
    unfold askEverything askGate
    split
    · exact h.same rfl rfl
    · exact away fun _ => rfl
    · exact hidle rfl
  | conclude =>
    unfold conclude
    split
    · exact hidle rfl
    · exact away fun _ => rfl

theorem step (h : m.Lent) (hnumbered : m.dispatched = m.workers.length)
    (ht : Transition m move m') : m'.Lent := by
  cases ht with
  | violation => exact away fun _ => rfl
  | start | submit | finish | abandonStart | abandonWait | abandonFinish =>
    exact away fun _ => rfl
  | producer hs => exact h.producer hnumbered hs
  | worker hw hs => exact h.worker hw hs
  | drop hw kept hs =>
    cases hs with
    | queued => exact h.change hw rfl rfl nofun fun _ _ ha => nomatch ha
    | @working a =>
      obtain ⟨lock, supply, tally, heq⟩ := m.lose_eq _ a
      rw [heq]
      exact h.change hw rfl rfl nofun fun _ _ ha => nomatch ha
  | cancel | world => exact h.same rfl rfl

end Lent

/-! ## Who can go on -/

/-- Whoever waits for the clock has waited long enough. Progress is proved for such states first,
and `restTime` leads to one from any other. -/
structure Rested (m : Machine α) : Prop where
  worker : ∀ (n : Nat) (w : Worker α) (a : Activity α) (time : Nat),
    m.workers[n]? = some w → w.phase = .working a → a.wait = .clock time → time ≤ m.now
  hook : ∀ hook a time, m.producer.hook? = some (hook, a) → a.wait = .clock time → time ≤ m.now

theorem awake_of_prompt (ha : a.All Action.IsPrompt)
    (hrested : ∀ time, a.wait = .clock time → time ≤ m.now)
    (hlock : a.wait = .lock → m.lock.isGranted n = true) : m.awake n a.wait = true := by
  obtain ⟨hlatch, hsupply⟩ := ha.not_awaiting
  cases hwait : a.wait with
  | nothing | turn => rfl
  | clock time => exact decide_eq_true (hrested time hwait)
  | latch name => exact absurd hwait (hlatch name)
  | lock => exact hlock hwait
  | supply => exact absurd hwait hsupply

theorem hookAwake_eq_awake {wait : Wait} (hlock : wait ≠ .lock) (hsupply : wait ≠ .supply) :
    m.hookAwake wait = m.awake n wait := by
  cases wait with
  | lock => exact absurd rfl hlock
  | supply => exact absurd rfl hsupply
  | _ => rfl

theorem hookAwake_of_prompt (ha : a.All Action.IsPrompt) (hlock : a.wait ≠ .lock)
    (hrested : ∀ time, a.wait = .clock time → time ≤ m.now) : m.hookAwake a.wait = true := by
  rw [hookAwake_eq_awake (n := 0) hlock ha.not_awaiting.2]
  exact awake_of_prompt ha hrested fun hwait => absurd hwait hlock

theorem working_goes (hw : m.workers[n]? = some w) (hphase : w.phase = .working a)
    (hfree : (if m.isLent n then m.suspended n a.wait else !m.awake n a.wait) = false) :
    (m.stepWorker n).isSome = true := by
  simp only [stepWorker, hw, hphase, hfree]
  cases hact : m.act (.worker n w.item) a with
  | mk m₁ p => cases p <;> rfl

theorem idle_goes (hw : m.workers[n]? = some w) (hopen : ∀ e, w.phase ≠ .ended e)
    (hidle : ∀ a, w.phase ≠ .working a) (hdropped : w.phase = .queued → m.isDropped n = false)
    (hlent : ∀ e, w.phase = .closing e → m.isLent n = false) : (m.stepWorker n).isSome = true := by
  simp only [stepWorker, hw]
  cases hphase : w.phase with
  | queued => simp [hdropped hphase]
  | working a => exact absurd hphase (hidle a)
  | closing e => simp [hlent e hphase]
  | ended e => exact absurd hphase (hopen e)
  | _ => rfl

theorem isDropped_of_not_lent (h : m.isLent n = false) : m.isDropped n = false := by
  unfold isLent at h
  unfold isDropped
  split
  · rename_i hp
    rw [hp] at h
    exact h
  · rfl

theorem exists_working {use : LockUse} (huse : m.lockUse n = use) (hne : use ≠ .away) :
    ∃ w a, m.workers[n]? = some w ∧ w.phase = .working a ∧ a.lockUse = use := by
  unfold lockUse at huse
  split at huse
  · rename_i w hw
    cases hphase : w.phase with
    | working a =>
      rw [hphase] at huse
      exact ⟨w, a, hw, hphase, huse⟩
    | _ =>
      rw [hphase] at huse
      exact absurd huse.symm hne
  · exact absurd huse.symm hne

theorem code_goes (hprompt : m.Prompt all) (hlent : m.isLent n = false)
    (hw : m.workers[n]? = some w) (hphase : w.phase = .working a)
    (hrested : ∀ time, a.wait = .clock time → time ≤ m.now)
    (hgranted : a.wait = .lock → m.lock.isGranted n = true) : (m.stepWorker n).isSome = true := by
  have hall := hprompt.workers n w a hw (by rw [Worker.code?, hphase]; rfl)
  refine working_goes hw hphase ?_
  rw [hlent, awake_of_prompt hall hrested hgranted]
  rfl

/-- Where a worker waits for the lock, one goes on that has it or is about to get it, by `LockOk`.
The one that has it may itself wait for the sink, but never for a lock. -/
theorem turn_goes (hprompt : m.Prompt all) (hlock : m.LockOk) (hlent : ∀ n, m.isLent n = false)
    (hrested : ∀ (n : Nat) (w : Worker α) (a : Activity α) (time : Nat), m.workers[n]? = some w →
      w.phase = .working a → a.lockUse = .holds → a.wait = .clock time → time ≤ m.now)
    (hn : m.lockUse n = .waits) : ∃ k, (m.stepWorker k).isSome = true := by
  rcases hlock.exists_turn hn with ⟨k, hk, hgranted⟩ | ⟨k, hk⟩
  · obtain ⟨v, b, hv, hb, huse⟩ := exists_working hk fun huse => by cases huse
    have hwait : b.wait = .lock := (hlock.coherent k v b hv hb).mpr huse
    refine ⟨k, code_goes hprompt (hlent k) hv hb (fun time htime => ?_) fun _ => hgranted⟩
    rw [hwait] at htime
    cases htime
  · obtain ⟨v, b, hv, hb, hholds⟩ := exists_working hk fun huse => by cases huse
    refine ⟨k, code_goes hprompt (hlent k) hv hb (hrested k v b · hv hb hholds) fun hwait => ?_⟩
    rw [(hlock.coherent k v b hv hb).mp hwait] at hholds
    cases hholds

/-- Where somebody holds a ticket and no task is lent, a worker can go on: whoever is blocked waits
for the lock, and `turn_goes` finds who has it. -/
theorem someone_goes (hprompt : m.Prompt all) (hlock : m.LockOk) (hrested : m.Rested)
    (hlent : ∀ n, m.isLent n = false) (hflight : inFlight m.workers ≠ 0) :
    ∃ n, (m.stepWorker n).isSome = true := by
  obtain ⟨w, hmem, hholds⟩ := List.countP_pos_iff.mp (Nat.pos_of_ne_zero hflight)
  obtain ⟨n, hw⟩ := List.getElem?_of_mem hmem
  by_cases hwork : ∃ a, w.phase = .working a
  · obtain ⟨a, hphase⟩ := hwork
    -- A worker at work goes on unless it waits for the lock in vain.
    by_cases hwaits : a.wait = .lock
    · have huse : m.lockUse n = .waits := by
        rw [lockUse_of_worker hw, hphase]
        exact (hlock.coherent n w a hw hphase).mp hwaits
      exact turn_goes hprompt hlock hlent
        (fun k v b time hv hb _ => hrested.worker k v b time hv hb) huse
    · exact ⟨n, code_goes hprompt (hlent n) hw hphase (hrested.worker n w a · hw hphase)
        fun hlock => absurd hlock hwaits⟩
  · refine ⟨n, idle_goes hw ?_ (fun a ha => hwork ⟨a, ha⟩) ?_ fun _ _ => hlent n⟩
    · intro e he
      rw [he] at hholds
      cases hholds
    · exact fun _ => isDropped_of_not_lent (hlent n)

theorem polled_goes (h : m.Lent) (hp : m.producer = .polling n) :
    (m.stepProducer).isSome = true ∨ (m.stepWorker n).isSome = true := by
  obtain ⟨w, hw, hopen⟩ := h.polled n hp
  have hlent : m.isLent n = true := by simp [isLent, hp]
  have hdropped : m.isDropped n = false := by simp [isDropped, hp]
  cases hphase : w.phase with
  | working a =>
    cases hsuspended : m.suspended n a.wait with
    | true =>
      left
      simp only [stepProducer, hp, pollEnded, hw, hphase, hsuspended]
      cases (m.setup.backend.receive n).verdict <;> rfl
    | false =>
      right
      refine working_goes hw hphase ?_
      rw [hlent, hsuspended]
      rfl
  | closing e =>
    left
    simp only [stepProducer, hp, pollEnded, hw, hphase]
    cases (m.setup.backend.receive n).verdict <;> rfl
  | ended e => exact absurd hphase (hopen e)
  | _ =>
    right
    refine idle_goes hw hopen ?_ (fun _ => hdropped) ?_ <;> rw [hphase]
    · intro a ha
      cases ha
    · intro e he
      cases he

theorem dropped_goes (h : m.Lent) (hp : m.producer = .dropping n) :
    (m.stepProducer).isSome = true ∨ (m.stepWorker n).isSome = true := by
  obtain ⟨w, hw, hopen, hidle⟩ := h.dropped n hp
  cases hphase : w.phase with
  | queued =>
    left
    simp only [stepProducer, hp, dropEnded, hw, hphase, dropTask]
    rfl
  | working a => exact absurd hphase (hidle a)
  | closing e =>
    left
    simp only [stepProducer, hp, dropEnded, hw, hphase]
    rfl
  | ended e => exact absurd hphase (hopen e)
  | _ =>
    right
    refine idle_goes hw hopen hidle ?_ ?_ <;> rw [hphase]
    · intro hqueued
      cases hqueued
    · intro e he
      cases he

/-- A call that asks the gate gets its answer, or a worker can go on. If tickets are missing, then
by `TicketsOk` workers hold them, and `someone_goes` applies. -/
theorem asking_goes {r : GateRequest} (htickets : m.TicketsOk)
    (hopen : m.gate.cancelled = false) (hprompt : m.Prompt all) (hlock : m.LockOk)
    (hrested : m.Rested) (hr : m.producer.request? = some r) :
    m.gate.isReady () = true ∨ ∃ n, (m.stepWorker n).isSome = true := by
  by_cases hflight : inFlight m.workers = 0
  · left
    have hasking := htickets.asking hr
    rw [hflight, hr] at hasking
    have hneed := r.need_le m.gate.capacity
    have hbalance := hasking.balance
    exact (hasking.line.granted_of_enough hopen (by omega)).1
  · right
    refine someone_goes hprompt hlock hrested (fun n => ?_) hflight
    cases hp : m.producer with
    | admitting | draining => simp [isLent, hp]
    | _ =>
      rw [hp] at hr
      cases hr

theorem hook_goes {hook : Hook} (hp : m.producer.hook? = some (hook, a))
    (hawake : m.hookAwake a.wait = true) : m.stepProducer.isSome = true := by
  rcases Phase.of_hook? hp with ⟨-, hp⟩ | ⟨-, hp⟩
  · simp only [stepProducer, hp, hawake]
    cases hact : m.act (.hook .start) a with
    | mk m₁ p => cases p <;> rfl
  · simp only [stepProducer, hp, hawake]
    cases hact : m.act (.hook .finish) a with
    | mk m₁ p => cases p <;> rfl

theorem ask_goes {r : GateRequest} (hr : m.producer.request? = some r)
    (hready : m.gate.isReady () = true) : m.stepProducer.isSome = true := by
  cases hp : m.producer with
  | admitting | draining =>
    simp only [stepProducer, hp, hready]
    rfl
  | _ =>
    rw [hp] at hr
    cases hr

theorem call_goes (hprompt : m.Prompt all) (hlent : m.Lent)
    (hrested : ∀ hook a time, m.producer.hook? = some (hook, a) → a.wait = .clock time →
      time ≤ m.now)
    (hbusy : m.producer ≠ .idle) (hasks : m.producer.request? = none) :
    m.stepProducer.isSome = true ∨ ∃ n, (m.stepWorker n).isSome = true := by
  cases hp : m.producer with
  | idle => exact absurd hp hbusy
  | starting a | finishing a =>
    have hhook : ∃ hook, m.producer.hook? = some (hook, a) := by
      rw [hp]
      exact ⟨_, rfl⟩
    obtain ⟨hook, hhook⟩ := hhook
    obtain ⟨hall, hwait⟩ := hprompt.hook hook a hhook
    exact Or.inl (hook_goes hhook (hookAwake_of_prompt hall hwait fun time ht =>
      hrested hook a time hhook ht))
  | admitting | draining =>
    rw [hp] at hasks
    cases hasks
  | polling n => exact (polled_goes hlent hp).imp_right fun h => ⟨n, h⟩
  | dropping n => exact (dropped_goes hlent hp).imp_right fun h => ⟨n, h⟩
  | refused f =>
    left
    simp only [stepProducer, hp]
    cases hoffer : m.cell.offer f with
    | mk won cell => cases won <;> rfl
  | checking | handing | outdone | drained =>
    left
    simp only [stepProducer, hp]
    rfl

theorem busy_goes (htickets : m.TicketsOk) (hopen : m.gate.cancelled = false)
    (hprompt : m.Prompt all) (hlock : m.LockOk) (hlent : m.Lent) (hrested : m.Rested)
    (hbusy : m.producer ≠ .idle) :
    m.stepProducer.isSome = true ∨ ∃ n, (m.stepWorker n).isSome = true := by
  cases hr : m.producer.request? with
  | none => exact call_goes hprompt hlent hrested.hook hbusy hr
  | some r => exact (asking_goes htickets hopen hprompt hlock hrested hr).imp_left (ask_goes hr)

/-! ## Time passes -/

end Machine

def Wait.alarm : Wait → Nat
  | .clock time => time
  | _ => 0

def Worker.alarm (w : Worker α) : Nat :=
  match w.phase with
  | .working a => a.wait.alarm
  | _ => 0

namespace Machine

variable {m : Machine α}

/-- A time by which everybody is `Rested`. A sum is large enough, and no maximum has to be found. -/
def restTime (m : Machine α) : Nat :=
  m.now + (m.workers.map (·.alarm)).sum + (m.producer.hook?.elim 0 fun hook => hook.2.wait.alarm)

theorem rested_at (m : Machine α) : ({ m with now := m.restTime } : Machine α).Rested := by
  constructor
  · intro n w a time hw hphase hwait
    have hle : w.alarm ≤ (m.workers.map (·.alarm)).sum :=
      List.le_sum_of_mem (List.mem_map_of_mem (List.mem_of_getElem? hw))
    have halarm : w.alarm = time := by rw [Worker.alarm, hphase]; simp only [hwait, Wait.alarm]
    show time ≤ m.restTime
    rw [restTime]
    omega
  · intro hook a time hp hwait
    have hp : m.producer.hook? = some (hook, a) := hp
    show time ≤ m.restTime
    rw [restTime, hp, Option.elim, hwait, Wait.alarm]
    omega

end Machine

/-! ## Bundles -/

def Plan.Within (all : List (WorkItem α)) : Plan α → Prop
  | .none => False
  | .opening items | .opened items | .feeding items => ∀ item ∈ items, item ∈ all
  | .closing _ | .over _ => True

namespace Run

variable {r r' : Run α} {move : Move α} {all : List (WorkItem α)} {opened : Bool}

/-- The producer or a worker can make a step; what the world around can do does not count, as nobody
can rely on it. -/
def CanStep (r : Run α) : Prop := ∃ move r', move.isStep = true ∧ r.step move = some r'

/-- What keeps a bundle of prompt items going: the invariants that `progress` draws on, all kept by
every step. -/
structure Live (r : Run α) (all : List (WorkItem α)) : Prop where
  sound : r.Sound
  orderly : ∃ current, r.machine.Orderly current ∧
    ∀ item, current = some (.submit item) → item ∈ all
  judged : r.machine.Judged r.machine.producer
  plan : r.plan.Within all
  prompt : r.machine.Prompt all
  lock : r.machine.LockOk
  lent : r.machine.Lent

theorem isBusy_of_not_idle (hidle : r.machine.producer ≠ .idle) : r.machine.isBusy = true := by
  unfold Machine.isBusy
  split
  · contradiction
  · rfl

theorem canStep_of_producer (hbusy : r.machine.isBusy = true)
    (h : r.machine.stepProducer.isSome = true) : r.CanStep := by
  obtain ⟨m', hm'⟩ := Option.isSome_iff_exists.mp h
  refine ⟨.producer, { r with machine := m' }, rfl, ?_⟩
  simp only [Run.step, hbusy, Machine.step, hm']
  rfl

theorem canStep_of_worker {n : Nat} (h : (r.machine.stepWorker n).isSome = true) : r.CanStep := by
  obtain ⟨m', hm'⟩ := Option.isSome_iff_exists.mp h
  refine ⟨.worker n, { r with machine := m' }, rfl, ?_⟩
  simp only [Run.step, Machine.step, hm']
  rfl

namespace Live

theorem new {setup : Setup α} {scope : Scope} (hprompt : setup.IsPrompt all) :
    (Run.bundle (.new setup scope) all).Live all where
  sound := .bundle setup scope all
  orderly := ⟨none, .new setup scope, nofun⟩
  judged := trivial
  plan := fun _ hitem => hitem
  prompt := .new scope hprompt
  lock := .new setup scope
  lent := .away fun _ => rfl

theorem mem (h : r.Live all) {item : WorkItem α} (hp : r.machine.producer = .handing item) :
    item ∈ all := by
  obtain ⟨current, hord, hwithin⟩ := h.orderly
  have hserves := hord.serves
  rw [hp] at hserves
  exact hwithin item hserves

theorem makeCall (h : r.Live all) (hp : r.machine.producer = .idle) (c : Call α) {plan : Plan α}
    (hsound : (r.makeCall c plan).Sound) (hcall : ∀ item, c = .submit item → item ∈ all)
    (hplan : plan.Within all) : (r.makeCall c plan).Live all := by
  have ht := Machine.transition_of_beginCall c hp
  obtain ⟨current, hord, -⟩ := h.orderly
  refine ⟨hsound, ⟨some c, hord.step ht, fun item heq => hcall item (Option.some.inj heq)⟩,
    Machine.judged_step h.judged ht, hplan, h.prompt.beginCall c, h.lock.step ht,
    h.lent.step hord.numbered ht⟩

theorem next (h : r.Live all) (hp : r.machine.producer = .idle) (hn : Next r r')
    (hsound : r'.Sound) : r'.Live all := by
  have hover {reply : Reply} (hsound : ({ r with plan := .over reply } : Run α).Sound) :
      ({ r with plan := .over reply } : Run α).Live all :=
    ⟨hsound, h.orderly, h.judged, trivial, h.prompt, h.lock, h.lent⟩
  have hwithin := h.plan
  cases hn with
  | start plan =>
    rw [plan] at hwithin
    exact h.makeCall hp .start hsound nofun hwithin
  | @submit item items plan =>
    have hitems : ∀ other ∈ item :: items, other ∈ all := by
      rcases plan with plan | plan <;> rwa [plan] at hwithin
    refine h.makeCall hp _ hsound ?_ fun other hother =>
      hitems other (List.mem_cons_of_mem _ hother)
    rintro other ⟨⟩
    exact hitems item List.mem_cons_self
  | finish | stop => exact h.makeCall hp .finish hsound nofun trivial
  | unopened | lost | close => exact hover hsound

theorem step (h : r.Live all) (hmove : move.IsSteady opened) (hstep : r.step move = some r') :
    r'.Live all := by
  have hsound := h.sound.step hmove.inner hstep
  rcases step_cases hstep with ⟨-, hp, hproceed⟩ | ⟨m', hm', rfl⟩
  · exact h.next hp (next_of_proceed hproceed) hsound
  · have ht := Machine.transition_of_step hm'
    obtain ⟨current, hord, hwithin⟩ := h.orderly
    have hord' := hord.step ht
    rw [Follows.call?_of_isInner hmove.inner] at hord'
    refine ⟨hsound, ⟨current, hord', hwithin⟩, Machine.judged_step h.judged ht, h.plan, ?_,
      h.lock.step ht, h.lent.step hord.numbered ht⟩
    exact h.prompt.step (Machine.codeStep h.judged ht) (Machine.cellStep ht).2.setup
      hmove.inner fun item hp => h.mem hp

theorem proceeds (h : r.Live all) (hidle : r.machine.producer = .idle) (hopen : r.result? = none) :
    r.CanStep := by
  have hproceed : r.proceed.isSome = true := by
    have hwithin := h.plan
    unfold proceed
    cases hplan : r.plan with
    | none =>
      rw [hplan] at hwithin
      exact hwithin.elim
    | «over» reply =>
      rw [result?, hplan] at hopen
      cases hopen
    | opening => rfl
    | opened items =>
      dsimp only
      split <;> rfl
    | feeding items =>
      dsimp only
      split <;> rfl
    | closing failed =>
      dsimp only
      split <;> rfl
  obtain ⟨r', hr'⟩ := Option.isSome_iff_exists.mp hproceed
  refine ⟨.producer, r', rfl, ?_⟩
  simp only [Run.step, Machine.isBusy, hidle]
  exact hr'

/-- If everybody is `Rested`, the producer or a worker can go on until there is a result. The call
in progress comes first, and a worker is looked for only if that call waits. -/
theorem progress (h : r.Live all) (hrested : r.machine.Rested) (hopen : r.result? = none) :
    r.CanStep := by
  by_cases hidle : r.machine.producer = .idle
  · exact h.proceeds hidle hopen
  · rcases Machine.busy_goes h.sound.tickets h.sound.uncancelled h.prompt h.lock h.lent hrested
      hidle with hgoes | ⟨n, hgoes⟩
    · exact canStep_of_producer (isBusy_of_not_idle hidle) hgoes
    · exact canStep_of_worker hgoes

end Live

theorem isSteady_of_isStep (h : move.isStep = true) : move.IsSteady opened := by
  cases move with
  | producer | worker => exact ⟨rfl, nofun, nofun⟩
  | _ => cases h

/-- The bundle can be run to its end, by moves that are `IsSteady` and hence do not depend on
anybody outside. -/
def CanEnd (r : Run α) (opened : Bool) : Prop :=
  ∃ later r' reply, (∀ move ∈ later, move.IsSteady opened) ∧ r.follow later = some r' ∧
    r'.result? = some reply

/-- When some time has passed, the bundle goes on, with less `work` to do. -/
theorem Live.goes (h : r.Live all) (hopen : r.result? = none) (opened : Bool) :
    ∃ later r', (∀ move ∈ later, move.IsSteady opened) ∧ r.follow later = some r' ∧
      r'.Live all ∧ r'.work < r.work := by
  let rested : Run α := { r with machine := { r.machine with now := r.machine.restTime } }
  have hclock : (.clock r.machine.restTime : Move α).IsSteady opened := ⟨rfl, nofun, nofun⟩
  have hpasses : r.step (.clock r.machine.restTime) = some rested := by
    have hle : r.machine.now ≤ r.machine.restTime := by
      rw [Machine.restTime]
      omega
    simp only [Run.step, Machine.step, hle]
    rfl
  have hlive := h.step hclock hpasses
  obtain ⟨move, r', hkind, hmove⟩ := hlive.progress r.machine.rested_at hopen
  have hsteady : move.IsSteady opened := isSteady_of_isStep hkind
  have hwait := work_step hpasses hclock
  have hstep := work_step hmove hsteady
  rw [hkind, Bool.toNat_true] at hstep
  refine ⟨[.clock r.machine.restTime, move], r', ?_, ?_, hlive.step hsteady hmove, by omega⟩
  · rintro mv (_ | ⟨_, _ | ⟨_, ⟨⟩⟩⟩)
    · exact hclock
    · exact hsteady
  · rw [follow_cons, hpasses, Option.bind_some, follow_singleton, hmove]

theorem Live.canEnd (h : r.Live all) (opened : Bool) : r.CanEnd opened := by
  induction hwork : r.work using Nat.strong_induction_on generalizing r with
  | _ n ih =>
    cases hresult : r.result? with
    | some reply => exact ⟨[], r, reply, nofun, rfl, hresult⟩
    | none =>
      obtain ⟨first, r₁, hfirst, hrun₁, hlive, hless⟩ := h.goes hresult opened
      obtain ⟨later, r', reply, hlater, hrun', hreply⟩ := ih r₁.work (hwork ▸ hless) hlive rfl
      refine ⟨first ++ later, r', reply, ?_, ?_, hreply⟩
      · intro move hmove
        rcases List.mem_append.mp hmove with hmove | hmove
        · exact hfirst move hmove
        · exact hlater move hmove
      · rw [follow_append, hrun₁]
        exact hrun'

theorem live {setup : Setup α} {scope : Scope} {moves : List (Move α)}
    (hprompt : setup.IsPrompt all) (hmoves : ∀ move ∈ moves, move.IsSteady opened)
    (hrun : (Run.bundle (.new setup scope) all).follow moves = some r) : r.Live all :=
  follow_invariant (I := fun r => r.Live all) (fun h hmove hstep => h.step hmove hstep)
    (.new hprompt) hmoves hrun

/-- A bundle of prompt items takes a bounded number of steps, and at every point of it the end can
be reached (`CanEnd`). -/
theorem terminates {setup : Setup α} {scope : Scope} {moves : List (Move α)}
    (hprompt : setup.IsPrompt all) (hmoves : ∀ move ∈ moves, move.IsSteady opened)
    (hrun : (Run.bundle (.new setup scope) all).follow moves = some r) :
    r.CanEnd opened ∧
      moves.countP Move.isStep ≤ (Run.bundle (.new setup scope) all).work :=
  ⟨(live hprompt hmoves hrun).canEnd opened, Nat.le_of_add_right_le (work_follow hmoves hrun)⟩

end Run

end WorkBundle
