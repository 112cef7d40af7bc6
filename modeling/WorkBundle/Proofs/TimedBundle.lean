import WorkBundle.Proofs.ListSchedule
import WorkBundle.Proofs.Napping
import WorkBundle.Proofs.VirtualClock

/-!
# A bundle of items that sleep

A bundle whose hooks take no time, and whose items sleep for given delays and then return, keeps to
the greedy schedule of these delays (`Machine.Timed`): every worker is where it should be at this
time. Under a virtual clock every move keeps it so. An item is handed over with a ticket that is
free, so no later than at its start; and time jumps only where all tickets are held by workers that
sleep, so no later than then.
-/

set_option autoImplicit false

namespace WorkBundle

variable {α : Type}

/-- The hooks of the bundle take no time, and its items sleep for these delays and then return
(`Script.Naps`). Its backend runs every task. -/
structure Setup.Lasts (s : Setup α) (scope : Scope) (items : List (WorkItem α))
    (delays : List Nat) : Prop where
  runs : ∀ n, (s.backend.receive n).verdict = .run
  intake : s.intake.IsInstant
  hooks : ∀ hook, ∀ action ∈ s.processor.script hook, action.IsInstant
  started : (s.processor.effect s.intake scope .start).outcome = .returned
  items : List.Forall₂ (fun item d => item.script.Naps d ∧
    (item.effect s.intake scope).outcome = .returned) items delays

theorem Action.IsInstant.isPrompt {action : Action α} (h : action.IsInstant) : action.IsPrompt := by
  cases action <;> trivial

theorem Action.IsSilent.isPrompt {action : Action α} (h : action.IsSilent) : action.IsPrompt := by
  cases action <;> trivial

theorem Script.Naps.isPrompt {d : Nat} {script : Script α} (h : script.Naps d) :
    ∀ action ∈ script, action.IsPrompt := by
  obtain ⟨before, rest, rfl, hbefore, hrest⟩ := h
  intro action hmem
  rcases List.mem_append.mp hmem with hmem | hmem
  · exact (hbefore action hmem).isPrompt
  · rcases List.mem_cons.mp hmem with rfl | hmem
    · trivial
    · exact (hrest action hmem).isPrompt

namespace Setup.Lasts

variable {s : Setup α} {scope : Scope} {items : List (WorkItem α)} {delays : List Nat}
  {item : WorkItem α} {i : Nat}

theorem nth (h : s.Lasts scope items delays) (hitem : items[i]? = some item) :
    ∃ d, delays[i]? = some d ∧ item.script.Naps d ∧
      (item.effect s.intake scope).outcome = .returned := by
  obtain ⟨hi, rfl⟩ := List.getElem?_eq_some_iff.mp hitem
  have hd : i < delays.length := h.items.length_eq ▸ hi
  exact ⟨delays[i], List.getElem?_eq_getElem hd, h.items.get hi hd⟩

theorem of_mem (h : s.Lasts scope items delays) (hitem : item ∈ items) :
    ∃ d, item.script.Naps d ∧ (item.effect s.intake scope).outcome = .returned := by
  obtain ⟨i, hi⟩ := List.getElem?_of_mem hitem
  obtain ⟨d, -, hitem⟩ := h.nth hi
  exact ⟨d, hitem⟩

theorem isPrompt (h : s.Lasts scope items delays) : s.IsPrompt items := by
  refine ⟨fun hook action haction => (h.hooks hook action haction).isPrompt, fun item hitem => ?_⟩
  obtain ⟨d, hnaps, -⟩ := h.of_mem hitem
  exact hnaps.isPrompt

theorem settledCode (h : s.Lasts scope items delays) : Run.SettledCode s items scope false where
  items := fun item hitem => by
    obtain ⟨d, hnaps, -⟩ := h.of_mem hitem
    refine ⟨h.intake.isIntact.isSettled item, fun action haction => ?_⟩
    have hprompt := hnaps.isPrompt action haction
    cases action <;> trivial
  hooks := fun hook => h.intake.isIntact.isSettled_script none _

end Setup.Lasts

namespace Machine

variable {m m' : Machine α} {move : Move α} {n t : Nat} {delays : List Nat} {w : Worker α}
  {scope : Scope} {items : List (WorkItem α)}

/-! ## What the producer does -/

/-- A call takes no time, and does nothing to the workers but hand over one more, if the backend
runs every task. -/
theorem call_step (hruns : m.RunsAll) (hj : m.Judged m.producer) (h : ProducerStep m m') :
    m'.now = m.now ∧ (m'.workers = m.workers ∨
      ∃ item, m.producer = .handing item ∧ m'.workers = m.workers ++ [⟨item, .queued⟩]) := by
  cases h with
  | startOn _ hact | finishOn _ hact =>
    obtain ⟨_, _, _, _, _, _, rfl⟩ := act_eq hact
    exact ⟨rfl, Or.inl rfl⟩
  | @startEnd _ outcome _ _ hact | @finishEnd _ outcome _ _ hact =>
    obtain ⟨_, _, _, _, _, _, rfl⟩ := act_eq hact
    cases outcome <;> exact ⟨rfl, Or.inl rfl⟩
  | ask =>
    unfold askTicket askGate
    split <;> exact ⟨rfl, Or.inl rfl⟩
  | drain =>
    unfold askEverything askGate
    split <;> exact ⟨rfl, Or.inl rfl⟩
  | check =>
    unfold check
    split <;> exact ⟨rfl, Or.inl rfl⟩
  | conclude =>
    unfold conclude
    split <;> exact ⟨rfl, Or.inl rfl⟩
  | @hand item phase =>
    rcases m.hand_cases item with ⟨-, heq⟩ | ⟨-, heq⟩ | ⟨-, -, heq⟩
    all_goals
      rw [heq]
      exact ⟨rfl, Or.inr ⟨item, phase, rfl⟩⟩
  | keep | refusalCaptured | refusalLate | refusalCounted => exact ⟨rfl, Or.inl rfl⟩
  | dropPolled _ _ verdict => exact absurd (hruns _) verdict
  | @dropQueued k _ phase =>
    rw [phase] at hj
    exact absurd (hruns k) hj
  | @answer k _ _ phase =>
    rcases phase with phase | ⟨-, verdict⟩
    · rw [phase] at hj
      exact absurd (hruns k) hj
    · exact absurd (hruns k) verdict

theorem beginCall_quick (m : Machine α) (c : Call α) :
    (m.beginCall c).now = m.now ∧ (m.beginCall c).workers = m.workers := by
  cases c
  all_goals
    unfold Machine.beginCall
    dsimp only
    split <;> exact ⟨rfl, rfl⟩

def HookInstant (m : Machine α) : Prop :=
  ∀ hook a, m.producer.hook? = some (hook, a) → a.IsInstant

theorem instant_of_script {script : Script α} (h : ∀ action ∈ script, action.IsInstant) :
    ({ script := script } : Activity α).IsInstant := ⟨h, nofun, nofun⟩

theorem HookInstant.step (h : m.HookInstant) (hlasts : m.setup.Lasts scope items delays)
    (hs : CodeStep m m' move) (hinner : move.isInner = true) : m'.HookInstant := by
  have hsilent (silent : m.Silent m' move) : m'.HookInstant := by
    intro hook a hp
    rcases silent.hook hinner with hsame | ⟨-, hbegins⟩
    · exact h hook a (hsame ▸ hp)
    · rw [hbegins] at hp
      cases hp
      exact instant_of_script (hlasts.hooks .finish)
  cases hs with
  | still silent | more silent | aside silent => exact hsilent silent
  | worker _ _ _ _ _ producer =>
    rw [HookInstant, producer]
    exact h
  | @hook hook a p m₁ phase hact _ _ next =>
    intro hook' b hp
    rw [next] at hp
    cases p with
    | «over» => cases hp
    | going a' =>
      cases hp
      exact act_instant hlasts.intake (h hook a phase) hact

theorem hookInstant_beginCall (hlasts : m.setup.Lasts scope items delays)
    (c : Call α) : (m.beginCall c).HookInstant := by
  cases c with
  | start =>
    unfold Machine.beginCall
    dsimp only
    split
    · intro hook a hp
      cases hp
      exact instant_of_script (hlasts.hooks .start)
    all_goals exact fun _ _ hp => nomatch hp
  | submit | finish =>
    unfold Machine.beginCall
    dsimp only
    split
    all_goals exact fun _ _ hp => nomatch hp

/-! ## On time -/

theorem length_eq_inFlight (ws : List (Worker α)) :
    ws.length = inFlight ws + ws.countP fun w => !w.phase.holdsTicket := by
  rw [inFlight, List.length_eq_countP_add_countP fun w : Worker α => w.phase.holdsTicket]
  simp only [Bool.not_eq_true, Bool.decide_eq_false]

/-- The bundle keeps to the `ListSchedule` of these delays, with `n` hands. Every worker is on time;
all hands were in use until now, as long as there was anything left to do; and no time has passed
since the last one was over. -/
structure Timed (m : Machine α) (n : Nat) (delays : List Nat) : Prop where
  worker : ∀ (i : Nat) (w : Worker α), m.workers[i]? = some w → ∃ d, delays[i]? = some d ∧
    w.item.script.Naps d ∧ w.OnTime m.now (ListSchedule.start n delays i) d
  hook : m.HookInstant
  busy : m.now = 0 ∨ m.workers.length = delays.length ∨
    (ListSchedule.ends n (delays.take m.workers.length)).countP (· < m.now) + n ≤ m.workers.length
  within : m.now ≤ ListSchedule.makespan n delays

namespace Timed

theorem new (setup : Setup α) (scope : Scope) : (Machine.new setup scope).Timed n delays where
  worker := fun _ _ hw => nomatch hw
  hook := fun _ _ hp => nomatch hp
  busy := Or.inl rfl
  within := Nat.zero_le _

theorem withEnds (h : m.Timed n delays) {P : Worker α → Nat → Prop}
    (hP : ∀ i w d, m.workers[i]? = some w → delays[i]? = some d →
      w.OnTime m.now (ListSchedule.start n delays i) d → P w (ListSchedule.start n delays i + d)) :
    List.Forall₂ P m.workers (ListSchedule.ends n (delays.take m.workers.length)) :=
  ListSchedule.forall₂_ends fun i w hw => by
    obtain ⟨d, hd, -, htime⟩ := h.worker i w hw
    exact ⟨d, hd, hP i w d hw hd htime⟩

theorem length_le (h : m.Timed n delays) : m.workers.length ≤ delays.length := by
  have hlength := (h.withEnds (P := fun _ _ => True) fun _ _ _ _ _ _ => trivial).length_eq
  rw [ListSchedule.length_ends, List.length_take] at hlength
  omega

/-- Whoever has given its ticket back is through. With `Timed.busy` this counts the ends before
now, by which `nextStart_eq` tells the next start. -/
theorem length_le_inFlight (h : m.Timed n delays) : m.workers.length ≤ inFlight m.workers +
    (ListSchedule.ends n (delays.take m.workers.length)).countP (· ≤ m.now) := by
  have hover := ListSchedule.countP_le_of_forall₂
    (p := fun w : Worker α => !w.phase.holdsTicket) (q := (· ≤ m.now)) <|
      h.withEnds fun i w d _ _ htime hback =>
        decide_eq_true (htime.ended (Bool.not_eq_true' _ ▸ hback))
  have hsplit := length_eq_inFlight m.workers
  omega

/-- While there is a ticket left, it is the time for the next worker to start. Here the greedy
schedule and the gate meet: a ticket is free just if a hand is. -/
theorem start_eq (h : m.Timed n delays) (hfree : inFlight m.workers < n)
    (hleft : m.workers.length < delays.length) :
    ListSchedule.start n delays m.workers.length = m.now := by
  have hover := h.length_le_inFlight
  have hlength :
      (ListSchedule.ends n (delays.take m.workers.length)).length = m.workers.length := by
    rw [ListSchedule.length_ends, List.length_take, Nat.min_eq_left (Nat.le_of_lt hleft)]
  rw [ListSchedule.start]
  rcases h.busy with hnow | hall | hbusy
  · by_cases hroom : m.workers.length < n
    · rw [ListSchedule.nextStart_of_lt (by omega), hnow]
    · refine ListSchedule.nextStart_eq ?_ (by omega)
      have hnone : (ListSchedule.ends n (delays.take m.workers.length)).countP (· < m.now) = 0 :=
        List.countP_eq_zero.mpr fun e _ => by simp [hnow]
      omega
  · exact absurd hleft (hall ▸ Nat.lt_irrefl _)
  · exact ListSchedule.nextStart_eq (by omega) (by omega)

theorem same (h : m.Timed n delays) (hnow : m'.now = m.now) (hworkers : m'.workers = m.workers)
    (hook : m'.HookInstant) : m'.Timed n delays := by
  refine ⟨?_, hook, ?_, hnow ▸ h.within⟩
  · rw [hworkers, hnow]
    exact h.worker
  · rw [hworkers, hnow]
    exact h.busy

theorem change (h : m.Timed n delays) {i : Nat} (hintake : m.setup.intake.IsInstant)
    (hw : m.workers[i]? = some w) (hstep : WorkerStep m i w m') : m'.Timed n delays := by
  obtain ⟨d, hd, hnaps, htime⟩ := h.worker i w hw
  obtain ⟨hnow, p, hworkers, htime'⟩ := worker_onTime hintake hnaps htime hstep
  have hlength : m'.workers.length = m.workers.length := by rw [hworkers, length_setPhase]
  refine ⟨fun k v hv => ?_, ?_, ?_, hnow ▸ h.within⟩
  · rw [hworkers] at hv
    rw [hnow]
    rcases worker_of_setPhase hw hv with ⟨rfl, rfl⟩ | ⟨-, hv⟩
    · exact ⟨d, hd, hnaps, htime'⟩
    · exact h.worker k v hv
  · rw [HookInstant, (SameCall.of_worker hstep).producer]
    exact h.hook
  · rw [hlength, hnow]
    exact h.busy

theorem more (h : m.Timed n delays) (hnow : m'.now = m.now) {item : WorkItem α} {d : Nat}
    (hworkers : m'.workers = m.workers ++ [⟨item, .queued⟩]) (hook : m'.HookInstant)
    (hd : delays[m.workers.length]? = some d) (hnaps : item.script.Naps d)
    (hfree : inFlight m.workers < n) : m'.Timed n delays := by
  obtain ⟨hleft, -⟩ := List.getElem?_eq_some_iff.mp hd
  have hstart := h.start_eq hfree hleft
  refine ⟨fun k v hv => ?_, hook, ?_, hnow ▸ h.within⟩
  · rw [hworkers] at hv
    rw [hnow]
    rcases getElem?_concat_cases hv with ⟨rfl, rfl⟩ | hv
    · exact ⟨d, hd, hnaps, hstart.symm⟩
    · exact h.worker k v hv
  · rw [hworkers, hnow, List.length_append, List.length_singleton, ListSchedule.ends_take_succ n hd,
      hstart, List.countP_append, List.countP_singleton]
    have hlast : decide (m.now + d < m.now) = false := decide_eq_false (by omega)
    rw [hlast, if_neg Bool.false_ne_true]
    rcases h.busy with hzero | hall | hbusy
    · exact Or.inl hzero
    · exact absurd hleft (hall ▸ Nat.lt_irrefl _)
    · exact Or.inr (Or.inr (by omega))

/-- Time passes, while everybody sleeps who has not ended, and all hands are in use. -/
theorem passes (h : m.Timed n delays) (hle : m.now ≤ t)
    (hasleep : ∀ (i : Nat) (w : Worker α), m.workers[i]? = some w →
      (∃ e, w.phase = .ended e) ∨ ∃ a time, w.phase = .working a ∧ a.wait = .clock time ∧ t ≤ time)
    (hfull : m.workers.length < delays.length → n ≤ inFlight m.workers)
    (hwithin : t ≤ ListSchedule.makespan n delays) :
    ({ m with now := t } : Machine α).Timed n delays := by
  -- Who sleeps does so until his end, so nobody in flight ends before.
  have hends : ∀ i w d, m.workers[i]? = some w → delays[i]? = some d →
      w.OnTime m.now (ListSchedule.start n delays i) d →
      w.OnTime t (ListSchedule.start n delays i) d ∧
        (w.phase.holdsTicket = true → t ≤ ListSchedule.start n delays i + d) := by
    intro i w d hw _ htime
    rcases hasleep i w hw with ⟨e, hphase⟩ | ⟨a, time, hphase, hwait, hbefore⟩
    · have hover := htime.ended (by rw [hphase]; rfl)
      refine ⟨?_, fun hholds => ?_⟩
      · rw [Worker.OnTime, hphase]
        exact hover.trans hle
      · rw [hphase] at hholds
        cases hholds
    · obtain ⟨rfl, hemitting, hinstant⟩ := htime.asleep hphase hwait
      refine ⟨?_, fun _ => hbefore⟩
      rw [Worker.OnTime, hphase]
      exact .asleep hinstant hemitting hwait hbefore
  refine ⟨fun i w hw => ?_, h.hook, ?_, hwithin⟩
  · obtain ⟨d, hd, hnaps, htime⟩ := h.worker i w hw
    exact ⟨d, hd, hnaps, (hends i w d hw hd htime).1⟩
  · by_cases hleft : m.workers.length < delays.length
    · have hover := ListSchedule.countP_le_of_forall₂ (p := (· < t))
        (q := fun w : Worker α => !w.phase.holdsTicket) <|
          (h.withEnds (P := fun w e => decide (e < t) = true → (!w.phase.holdsTicket) = true)
            fun i w d hw hd htime hbefore => by
              have hend := (hends i w d hw hd htime).2
              cases hholds : w.phase.holdsTicket with
              | false => rfl
              | true =>
                exact absurd (hend hholds) (Nat.not_le_of_lt (of_decide_eq_true hbefore))).flip
      have hsplit := length_eq_inFlight m.workers
      have hfull := hfull hleft
      refine Or.inr (Or.inr ?_)
      show (ListSchedule.ends n (delays.take m.workers.length)).countP (· < t) + n ≤
        m.workers.length
      omega
    · exact Or.inr (Or.inl (Nat.le_antisymm h.length_le (Nat.le_of_not_lt hleft)))

end Timed

end Machine

namespace Run

variable {r r' : Run α} {m : Machine α} {move : Move α} {moves : List (Move α)} {setup : Setup α}
  {scope : Scope} {items all : List (WorkItem α)} {delays : List Nat} {opened : Bool}

/-! ## Nothing fails -/

theorem Winds.foreseen (h : Winds m scope opened) : ∃ begun, m.Foreseen scope opened begun := by
  cases h with
  | draining _ begun | failed _ _ _ begun => exact ⟨_, begun⟩
  | finishing _ _ framed | finished _ _ _ framed => exact ⟨_, framed⟩

theorem Deciding.empty (h : r.Deciding all scope opened)
    (hreturned : ∀ item ∈ all, (item.effect r.machine.setup.intake scope).outcome = .returned)
    {k : Nat} (hhanded : r.machine.Handed all k) {begun : List Use}
    (hforeseen : r.machine.Foreseen scope opened begun) : r.machine.cell.captured = none := by
  obtain rfl := h.runs.length_items hhanded
  cases hcell : r.machine.cell.captured with
  | none => rfl
  | some f =>
    obtain ⟨item, hitem, hfailure⟩ := hforeseen.failure h.traced hcell
    have hitems : r.machine.items = all.take r.machine.items.length := by
      rw [← hhanded.first, List.take_length]
    have hmem : item ∈ all := List.mem_of_mem_take (hitems ▸ List.mem_of_getElem? hitem)
    rw [hreturned item hmem] at hfailure
    cases hfailure

theorem Deciding.handed_all (h : r.Deciding all scope opened)
    (hstarted : (hookEffect r.machine scope .start).outcome = .returned)
    (hreturned : ∀ item ∈ all, (item.effect r.machine.setup.intake scope).outcome = .returned)
    (hplan : (∃ failed, r.plan = .closing failed) ∨ ∃ reply, r.plan = .over reply) :
    r.machine.items.length = all.length := by
  have hdecides := h.decides
  have hsubmitted := h.regular.submitted
  rcases hplan with ⟨failed, hplan⟩ | ⟨reply, hplan⟩
  · rw [hplan] at hdecides hsubmitted
    obtain ⟨-, hall, hcaptured, hwinds⟩ := hdecides
    obtain ⟨k, hhanded, -⟩ := hsubmitted
    obtain ⟨begun, hforeseen⟩ := hwinds.foreseen
    have hempty := h.empty hreturned hhanded hforeseen
    refine hall (Option.eq_none_iff_forall_ne_some.mpr fun e he => ?_)
    obtain ⟨f, hf, -⟩ := hcaptured e he
    cases hempty.symm.trans hf
  · rw [hplan] at hdecides hsubmitted
    obtain ⟨k, hhanded, -⟩ := hsubmitted
    cases hdecides with
    | unopened failed => exact absurd hstarted failed
    | failed _ full begun => cases (h.empty hreturned hhanded begun).symm.trans full
    | finished _ _ every => exact every

/-! ## On time all along -/

theorem Live.closing_of_drain (h : r.Live all) (hp : r.machine.producer = .draining) :
    ∃ failed, r.plan = .closing failed := by
  have hfollows := h.sound.follows
  have hwithin := h.plan
  cases hplan : r.plan with
  | none =>
    rw [hplan] at hwithin
    exact hwithin.elim
  | closing failed => exact ⟨failed, rfl⟩
  | opening =>
    rw [hplan] at hfollows
    cases hp.symm.trans hfollows.2.1
  | opened =>
    rw [hplan] at hfollows
    obtain ⟨-, ⟨a, hstarts⟩ | ⟨hidle, -⟩⟩ := hfollows
    · cases hp.symm.trans hstarts
    · cases hp.symm.trans hidle
  | feeding =>
    rw [hplan] at hfollows
    obtain ⟨-, hstage | ⟨hidle, -⟩⟩ := hfollows
    · rw [hp] at hstage
      cases hstage
    · cases hp.symm.trans hidle
  | «over» reply =>
    rw [hplan] at hfollows
    cases hp.symm.trans hfollows.idle

theorem fixed_step (h : r.step move = some r') : r'.machine.setup = r.machine.setup ∧
    r'.machine.gate.capacity = r.machine.gate.capacity := by
  have hkept {m' : Machine α} {mv : Move α} (ht : Machine.Transition r.machine mv m') :
      m'.setup = r.machine.setup ∧ m'.gate.capacity = r.machine.gate.capacity :=
    ⟨(Machine.cellStep ht).2.setup, (Machine.ticketStep ht).capacity_eq⟩
  rcases step_cases h with ⟨-, hp, hproceed⟩ | ⟨m', hm', rfl⟩
  · rcases next_machine (next_of_proceed hproceed) with heq | ⟨c, heq⟩
    · rw [heq]
      exact ⟨rfl, rfl⟩
    · rw [heq]
      exact hkept (Machine.transition_of_beginCall c hp)
  · exact hkept (Machine.transition_of_step hm')

/-- What holds of the bundle all along: that it is `Timed`, with what has to be known so that it
stays so. -/
structure OnSchedule (r : Run α) (setup : Setup α) (scope : Scope) (items : List (WorkItem α))
    (delays : List Nat) : Prop where
  lasts : setup.Lasts scope items delays
  made : r.machine.setup = setup
  capacity : r.machine.gate.capacity = setup.parallelism
  live : r.Live items
  deciding : r.Deciding items scope false
  timed : r.machine.Timed setup.parallelism.count delays

namespace OnSchedule

theorem handed_all (h : r.OnSchedule setup scope items delays)
    (hplan : (∃ failed, r.plan = .closing failed) ∨ ∃ reply, r.plan = .over reply) :
    r.machine.workers.length = delays.length := by
  have hstarted : (hookEffect r.machine scope .start).outcome = .returned := by
    rw [hookEffect, h.made]
    exact h.lasts.started
  have hlength := h.deciding.handed_all hstarted (fun item hitem => by
    obtain ⟨d, -, hreturned⟩ := h.lasts.of_mem hitem
    rw [h.made]
    exact hreturned) hplan
  rwa [Machine.items, List.length_map, h.lasts.items.length_eq] at hlength

theorem stuck_worker (h : r.OnSchedule setup scope items delays) (hstuck : ¬ r.CanStep) {i : Nat}
    {w : Worker α} (hw : r.machine.workers[i]? = some w) :
    (∃ e, w.phase = .ended e) ∨ ∃ a time, w.phase = .working a ∧ a.wait = .clock time := by
  refine h.live.stuck_worker hstuck (fun k v a time hv hphase hholds hwait => ?_) hw
  obtain ⟨d, -, -, htime⟩ := h.timed.worker k v hv
  obtain ⟨-, hemitting, -⟩ := htime.asleep hphase hwait
  rw [Activity.lockUse, hemitting] at hholds
  cases hholds

/-- Where nobody can make a step, all hands are in use, unless there is nothing left to do: else the
producer could go on, since by `stuck_call` it waits only for tickets that others hold. -/
theorem stuck_full (h : r.OnSchedule setup scope items delays) (hstuck : ¬ r.CanStep)
    (hleft : r.machine.workers.length < delays.length) :
    setup.parallelism.count ≤ Machine.inFlight r.machine.workers := by
  have hopen : r.result? = none := by
    by_contra hclosed
    obtain ⟨reply, hresult⟩ := Option.ne_none_iff_exists'.mp hclosed
    have hall := h.handed_all (Or.inr ⟨reply, plan_of_result? hresult⟩)
    omega
  obtain ⟨request, hrequest, hfull⟩ := h.live.stuck_call hstuck hopen fun hook a time hp =>
    (h.timed.hook hook a hp).wait time
  rw [h.capacity] at hfull
  cases request with
  | ticket =>
    rw [GateRequest.need] at hfull
    omega
  | everything =>
    -- The drain comes after the last item.
    have hplan : ∃ failed, r.plan = .closing failed := by
      cases hp : r.machine.producer with
      | draining => exact h.live.closing_of_drain hp
      | _ =>
        rw [hp] at hrequest
        cases hrequest
    have hall := h.handed_all (Or.inl hplan)
    omega

theorem timed_call (h : r.OnSchedule setup scope items delays)
    (hstep : Machine.ProducerStep r.machine m) : m.Timed setup.parallelism.count delays := by
  have hlasts : r.machine.setup.Lasts scope items delays := h.made ▸ h.lasts
  have hjudged := h.deciding.regular.judged
  have hook := h.timed.hook.step hlasts (Machine.codeStep_of_producer hjudged hstep) rfl
  obtain ⟨hnow, hworkers | ⟨item, hphase, hworkers⟩⟩ :=
    Machine.call_step h.deciding.runs hjudged hstep
  · exact h.timed.same hnow hworkers hook
  · have hitem := h.deciding.regular.submitted.next_item h.live.sound.follows hphase
    obtain ⟨d, hd, hnaps, -⟩ := h.lasts.nth hitem
    have hbalance := h.live.sound.tickets.balance
    rw [hphase, Phase.tickets, h.capacity] at hbalance
    exact h.timed.more hnow hworkers hook hd hnaps (by omega)

theorem timed_clock (h : r.OnSchedule setup scope items delays) {time : Nat} (hstuck : ¬ r.CanStep)
    (hsleeps : r.machine.Sleeps time) (hfirst : r.NobodyBefore time)
    (hlater : r.machine.now < time) :
    (r.atTime time).machine.Timed setup.parallelism.count delays := by
  refine h.timed.passes (Nat.le_of_lt hlater) (fun i w hw => ?_) (h.stuck_full hstuck) ?_
  · refine (h.stuck_worker hstuck hw).imp_right fun ⟨a, other, hphase, hwait⟩ => ?_
    obtain ⟨actor, hactor, halarm⟩ := sleeps_iff.mp (.worker hw hphase hwait)
    exact ⟨a, other, hphase, hwait, hfirst actor hactor other halarm⟩
  · cases hsleeps with
    | @worker i w a hw hphase hwait =>
      obtain ⟨d, hd, -, htime⟩ := h.timed.worker i w hw
      rw [(htime.asleep hphase hwait).1]
      exact ListSchedule.le_makespan (List.mem_of_getElem? (ListSchedule.getElem?_ends _ hd))
    | hook hhook hwait => exact absurd hwait ((h.timed.hook _ _ hhook).wait time)

theorem timed_step (h : r.OnSchedule setup scope items delays) (hs : DueStep r r') :
    r'.machine.Timed setup.parallelism.count delays := by
  have hlasts : r.machine.setup.Lasts scope items delays := h.made ▸ h.lasts
  cases hs with
  | planned machine =>
    rw [machine]
    exact h.timed
  | @calls _ c idle machine =>
    rw [machine]
    obtain ⟨hnow, hworkers⟩ := Machine.beginCall_quick r.machine c
    exact h.timed.same hnow hworkers (Machine.hookInstant_beginCall hlasts c)
  | producer hcall => exact h.timed_call hcall
  | worker hw hworker => exact h.timed.change hlasts.intake hw hworker
  | clock stuck sleeps first later => exact h.timed_clock stuck sleeps first later

/-- Every move that `IsDue` keeps the bundle on its schedule. -/
theorem step (h : r.OnSchedule setup scope items delays) (hdue : r.IsDue move)
    (hstep : r.step move = some r') : r'.OnSchedule setup scope items delays := by
  obtain ⟨hsetup, hcapacity⟩ := fixed_step hstep
  exact ⟨h.lasts, hsetup.trans h.made, hcapacity.trans h.capacity,
    h.live.step hdue.isSteady hstep, h.deciding.step hdue.isSteady hstep,
    h.timed_step (h.live.dueStep hdue hstep)⟩

theorem new (h : setup.Lasts scope items delays) :
    (Run.bundle (.new setup scope) items).OnSchedule setup scope items delays :=
  ⟨h, rfl, rfl, .new h.isPrompt, .new h.runs h.settledCode, .new setup scope⟩

/-- When the bundle has its result, the last item has just ended, so the clock shows the `makespan`.
-/
theorem now_eq (h : r.OnSchedule setup scope items delays) {reply : Reply}
    (hresult : r.result? = some reply) :
    r.machine.now = ListSchedule.makespan setup.parallelism.count delays := by
  have hplan := plan_of_result? hresult
  have hall := h.handed_all (Or.inr ⟨reply, hplan⟩)
  have hquiet := h.live.sound.quiet hplan
  refine Nat.le_antisymm h.timed.within (ListSchedule.makespan_le_iff.mpr fun e he => ?_)
  obtain ⟨i, hi⟩ := List.getElem?_of_mem he
  have hlt : i < r.machine.workers.length := by
    rw [hall, ← ListSchedule.length_ends setup.parallelism.count delays]
    exact (List.getElem?_eq_some_iff.mp hi).1
  have hw := List.getElem?_eq_getElem hlt
  obtain ⟨d, hd, -, htime⟩ := h.timed.worker i _ hw
  rw [ListSchedule.getElem?_ends _ hd] at hi
  cases hi
  obtain ⟨e, hphase⟩ := Machine.over_of_inFlight_zero hquiet.empty hw
  exact htime.ended (by rcases hphase with hphase | hphase <;> rw [hphase] <;> rfl)

end OnSchedule

theorem onSchedule (h : setup.Lasts scope items delays)
    (hdue : (Run.bundle (.new setup scope) items).IsPunctual moves)
    (hrun : (Run.bundle (.new setup scope) items).follow moves = some r) :
    r.OnSchedule setup scope items delays :=
  punctual_induction (Q := fun _ r => r.OnSchedule setup scope items delays) (.new h)
    (fun _ _ h hdue hstep => h.step hdue hstep) hdue hrun

end Run

end WorkBundle
