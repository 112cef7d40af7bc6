import WorkBundle.Proofs.Failures
import WorkBundle.Proofs.Tickets

/-!
# The drain and what comes after it

A finish waits for every ticket, and every worker returns its ticket as its last act. So when a
finish is answered — unless it was cancelled or out of order — no worker is in flight, and since a
finished bundle takes no more items, it is over for good: `Quiet` says so, and nothing reaches the
sink any more.

The finish hook runs between the two: `HookCount` keeps count of its calls through the phases of a
finish.
-/

set_option autoImplicit false

namespace WorkBundle

variable {α : Type}

def Call.isFinish : Call α → Bool
  | .finish => true
  | _ => false

/-- Does a finish that is answered so say that the drain is complete? Only a cancellation and a call
out of order end it before. -/
def Reply.isDrained : Reply → Bool
  | .answer (.error (.cancelled _)) | .answer (.error (.lifecycle _)) => false
  | _ => true

def Reply.failure? : Reply → Option Failure
  | .answer (.error e) => e.failure?
  | _ => none

namespace Machine

/-! ## A bundle that is over -/

/-- Nothing is under way: no call in progress and, by `inFlight`, no worker that still holds its
ticket. Workers in their last phases remain, which `Quiet.run` shows to do no more harm. -/
structure Quiet (m : Machine α) : Prop where
  idle : m.producer = .idle
  empty : inFlight m.workers = 0

def SameSink (m m' : Machine α) : Prop := m'.arrivals = m.arrivals ∧ m'.written = m.written

theorem Quiet.step {m m' : Machine α} {move : Move α} (hq : m.Quiet) (h : Transition m move m')
    (hcalls : m.stage = .finished ∨ move.call? = none) :
    m'.Quiet ∧ m'.stage = m.stage ∧ SameSink m m' ∧ m'.cell.captured = m.cell.captured := by
  obtain ⟨hidle, hempty⟩ := hq
  have hover {n : Nat} {w : Worker α} (hw : m.workers[n]? = some w) :=
    over_of_inFlight_zero hempty hw
  cases h with
  | violation => exact ⟨⟨rfl, hempty⟩, rfl, ⟨rfl, rfl⟩, rfl⟩
  | start _ stage | submit _ stage | finish _ stage =>
    rcases hcalls with hfin | hnone
    · rw [stage] at hfin
      cases hfin
    · cases hnone
  | abandonStart phase | abandonFinish phase =>
    rw [hidle] at phase
    cases phase
  | abandonWait phase =>
    rw [hidle] at phase
    rcases phase with ⟨_, hp⟩ | hp <;> cases hp
  | producer hstep => exact absurd hidle (not_idle_of_producerStep hstep)
  -- A worker without a ticket can only close its task.
  | worker hw hstep =>
    obtain ⟨e, hp⟩ := hover hw
    cases hstep with
    | @close e' phase =>
      obtain ⟨tally, log, heq⟩ := m.close_eq _ e'
      have hcount := inFlight_setPhase hw (.ended e')
      rw [phase, hempty] at hcount
      rw [heq]
      exact ⟨⟨hidle, hcount⟩, rfl, ⟨rfl, rfl⟩, rfl⟩
    | begin phase | goOn phase | finish phase | offer phase | count phase | leave phase =>
      rw [phase] at hp
      rcases hp with hp | hp <;> cases hp
  | drop hw _ hstep =>
    obtain ⟨e, hp⟩ := hover hw
    cases hstep with
    | queued phase | working phase =>
      rw [phase] at hp
      rcases hp with hp | hp <;> cases hp
  | cancel => exact ⟨⟨hidle, hempty⟩, rfl, ⟨rfl, rfl⟩, rfl⟩
  | world => exact ⟨⟨hidle, hempty⟩, rfl, ⟨rfl, rfl⟩, rfl⟩

/-- Once a finished bundle is `Quiet` it stays so, and by `SameSink` nothing reaches the sink any
more: the answer of a finish is the last word. -/
theorem Quiet.run {m m' : Machine α} {moves : List (Move α)} (hq : m.Quiet)
    (hstage : m.stage = .finished) (hrun : m.run moves = some m') :
    m'.Quiet ∧ m'.stage = .finished ∧ SameSink m m' := by
  refine run_invariant (I := fun m₁ => m₁.Quiet ∧ m₁.stage = .finished ∧ SameSink m m₁) ?_
    ⟨hq, hstage, rfl, rfl⟩ hrun
  rintro m₁ m₂ move ⟨hq₁, hs₁, hsink⟩ h
  obtain ⟨hq₂, hs₂, hsink₂, -⟩ := hq₁.step h (Or.inl hs₁)
  exact ⟨hq₂, hs₂.trans hs₁, hsink₂.1.trans hsink.1, hsink₂.2.trans hsink.2⟩

/-! ## Calls of the finish hook -/

/-- Does the finish hook begin between these states? It is read off the phases (`finishing`),
because an empty hook begins and ends without sending anything. -/
def callsFinishHook (m m' : Machine α) : Bool :=
  m'.producer.isFinishing && !m.producer.isFinishing

/-- How often the finish hook is called in a run, which is `callsFinishHook` summed over its steps.
-/
def finishHooks (m : Machine α) : List (Move α) → Nat
  | [] => 0
  | move :: moves =>
    match m.step move with
    | none => 0
    | some m' => (m.callsFinishHook m').toNat + m'.finishHooks moves

theorem finishHooks_append {m₀ m : Machine α} {moves : List (Move α)} (hrun : m₀.run moves = some m)
    (later : List (Move α)) :
    m₀.finishHooks (moves ++ later) = m₀.finishHooks moves + m.finishHooks later := by
  induction moves generalizing m₀ with
  | nil =>
    cases hrun
    simp [finishHooks]
  | cons move moves ih =>
    obtain ⟨m₁, h₁, h₂⟩ := Option.bind_eq_some_iff.mp hrun
    simp only [List.cons_append, finishHooks, h₁, ih h₂]
    omega

theorem finishHooks_concat {m₀ m m' : Machine α} {moves : List (Move α)} {move : Move α}
    (hrun : m₀.run moves = some m) (hstep : m.step move = some m') :
    m₀.finishHooks (moves ++ [move]) = m₀.finishHooks moves + (m.callsFinishHook m').toNat := by
  rw [finishHooks_append hrun]
  simp [finishHooks, hstep]

def BeforeFinishHook (m : Machine α) : Prop :=
  m.stage ≠ .finished ∨ m.producer = .draining ∨ m.producer = .drained

/-- The hook was called `k` times, as stage and phase tell: not `BeforeFinishHook`, then once. While
it runs no failure is captured, so a hook is never called over a failure that comes late. -/
structure HookCount (m : Machine α) (k : Nat) : Prop where
  le_one : k ≤ 1
  before : m.BeforeFinishHook → k = 0
  during : m.producer.isFinishing = true → k = 1 ∧ m.cell.captured = none

/-- Once the drain is complete the cell stands still, since by `TicketsOk` every ticket is with the
producer and a worker offers its failure only before it gives its ticket back. -/
theorem captured_still {m m' : Machine α} {move : Move α} (htickets : m.TicketsOk)
    (ht : Transition m move m') (hp : m.producer = .drained ∨ m.producer.isFinishing = true) :
    m'.cell.captured = m.cell.captured := by
  cases (cellStep ht).1 with
  | same cell => exact cell
  | worker _ worker phase =>
    obtain ⟨e, hover⟩ := over_of_inFlight_zero (htickets.inFlight_zero hp) worker
    rw [phase] at hover
    rcases hover with hover | hover <;> cases hover
  | refusal _ phase =>
    rw [phase] at hp
    rcases hp with hp | hp <;> cases hp

namespace HookCount

variable {m m' : Machine α} {k : Nat}

theorem new (setup : Setup α) (scope : Scope) : (Machine.new setup scope).HookCount 0 :=
  ⟨Nat.zero_le _, fun _ => rfl, fun h => by cases h⟩

theorem same (h : m.HookCount k) (hproducer : m'.producer = m.producer)
    (hstage : m'.stage = m.stage)
    (hcell : m.producer.isFinishing = true → m'.cell.captured = m.cell.captured) :
    m'.HookCount (k + (m.callsFinishHook m').toNat) := by
  rw [callsFinishHook, hproducer, Bool.and_not_self]
  refine ⟨h.le_one, ?_, ?_⟩
  · unfold BeforeFinishHook
    rw [hproducer, hstage]
    exact h.before
  · rw [hproducer]
    intro hf
    rw [hcell hf]
    exact h.during hf

theorem calm (h : m.HookCount k) (hphase : m'.producer.isFinishing = false)
    (hbefore : m'.BeforeFinishHook → m.BeforeFinishHook) :
    m'.HookCount (k + (m.callsFinishHook m').toNat) := by
  rw [callsFinishHook, hphase]
  refine ⟨h.le_one, fun hb => h.before (hbefore hb), ?_⟩
  rw [hphase]
  intro hf
  cases hf

theorem other (h : m.HookCount k) (hphase : m'.producer.isFinishing = false)
    (hstage : m'.stage ≠ .finished → m.stage ≠ .finished)
    (hdrain : m'.producer ≠ .draining ∧ m'.producer ≠ .drained) :
    m'.HookCount (k + (m.callsFinishHook m').toNat) := by
  refine h.calm hphase ?_
  rintro (hs | hp | hp)
  · exact Or.inl (hstage hs)
  · exact absurd hp hdrain.1
  · exact absurd hp hdrain.2

theorem not_before (hstage : m.stage = .finished) (hphase : m.producer.isFinishing = true) :
    ¬ m.BeforeFinishHook := by
  rintro (hs | hp | hp)
  · exact hs hstage
  all_goals
    rw [hp] at hphase
    cases hphase

theorem producer (h : m.HookCount k) {current : Option (Call α)} (hord : m.Orderly current)
    (hstep : ProducerStep m m') : m'.HookCount (k + (m.callsFinishHook m').toNat) := by
  cases hstep with
  | startOn _ hact =>
    obtain ⟨_, _, _, _, _, _, rfl⟩ := act_eq hact
    exact h.other rfl id ⟨nofun, nofun⟩
  | @startEnd _ outcome _ phase hact =>
    obtain ⟨_, _, _, _, _, _, rfl⟩ := act_eq hact
    have hstage : m.stage = .created := hord.stage _ (by rw [phase]; rfl)
    cases outcome with
    | failed => exact h.other rfl (fun hs => absurd rfl hs) ⟨nofun, nofun⟩
    | returned => exact h.other rfl (fun _ => by rw [hstage]; nofun) ⟨nofun, nofun⟩
    | panicked => exact h.other rfl id ⟨nofun, nofun⟩
  | ask phase =>
    unfold askTicket askGate
    split
    · exact h.same rfl rfl fun _ => rfl
    · exact h.other rfl id ⟨nofun, nofun⟩
    · exact h.other rfl id ⟨nofun, nofun⟩
  | check =>
    unfold check
    split <;> exact h.other rfl id ⟨nofun, nofun⟩
  | @hand item =>
    rcases m.hand_cases item with ⟨-, heq⟩ | ⟨-, heq⟩ | ⟨-, -, heq⟩
    all_goals
      rw [heq]
      exact h.other rfl id ⟨nofun, nofun⟩
  | keep | refusalCaptured | refusalLate | refusalCounted => exact h.other rfl id ⟨nofun, nofun⟩
  | @dropPolled n w a =>
    obtain ⟨lock, supply, tally, heq⟩ := lose_eq { m with producer := .dropping n } n a
    rw [heq]
    exact h.other rfl id ⟨nofun, nofun⟩
  | dropQueued => exact h.same rfl rfl fun _ => rfl
  | @answer n w e =>
    rcases (m.setPhase n (.ended e)).verdictOf_cases n with ⟨-, heq⟩ | ⟨-, heq⟩
    all_goals
      rw [heq]
      exact h.other rfl id ⟨nofun, nofun⟩
  | drain phase =>
    unfold askEverything askGate
    split
    · exact h.same rfl rfl fun _ => rfl
    · exact h.calm rfl fun _ => Or.inr (Or.inl phase)
    · exact h.other rfl id ⟨nofun, nofun⟩
  -- The hook is called here and nowhere else.
  | conclude phase =>
    unfold conclude
    split
    · exact h.other rfl id ⟨nofun, nofun⟩
    · have hzero := h.before (Or.inr (Or.inr phase))
      have hcalls : m.callsFinishHook
          { m with producer := .finishing { script := m.setup.processor.finishHook } } = true := by
        rw [callsFinishHook, phase]
        rfl
      rw [hcalls, hzero]
      have hstage : m.stage = .finished := hord.stage _ (by rw [phase]; rfl)
      exact ⟨Nat.le_refl _, fun hb => absurd hb (not_before hstage rfl), fun _ => ⟨rfl, ‹_›⟩⟩
  | @finishOn a a' _ phase hact =>
    obtain ⟨_, _, _, _, _, _, rfl⟩ := act_eq hact
    have hstage : m.stage = .finished := hord.stage _ (by rw [phase]; rfl)
    have hcount := h.during (by rw [phase]; rfl)
    rw [callsFinishHook, phase]
    exact ⟨h.le_one, fun hb => absurd hb (not_before hstage rfl), fun _ => hcount⟩
  | @finishEnd _ outcome _ _ hact =>
    obtain ⟨_, _, _, _, _, _, rfl⟩ := act_eq hact
    cases outcome <;> exact h.other rfl id ⟨nofun, nofun⟩

theorem step (h : m.HookCount k) {current : Option (Call α)} (hord : m.Orderly current)
    (htickets : m.TicketsOk) {move : Move α} (ht : Transition m move m') :
    m'.HookCount (k + (m.callsFinishHook m').toNat) := by
  have hcell (hf : m.producer.isFinishing = true) := captured_still htickets ht (Or.inr hf)
  cases ht with
  | violation idle => exact h.other rfl id ⟨nofun, nofun⟩
  | start | submit => exact h.other rfl id ⟨nofun, nofun⟩
  | finish _ stage => exact h.calm rfl fun _ => Or.inl (by rw [stage]; nofun)
  | @abandonStart a | @abandonFinish a =>
    obtain ⟨tally, heq⟩ := m.forsakeHook_eq a
    rw [heq]
    exact h.other rfl id ⟨nofun, nofun⟩
  | abandonWait => exact h.other rfl id ⟨nofun, nofun⟩
  | producer hstep => exact h.producer hord hstep
  | worker _ hstep =>
    have hsame := SameCall.of_worker hstep
    exact h.same hsame.producer hsame.stage hcell
  | drop _ _ hstep =>
    have hsame := SameCall.of_drop hstep
    exact h.same hsame.producer hsame.stage hcell
  | cancel | world => exact h.same rfl rfl fun _ => rfl

end HookCount

theorem step_of_drained {m : Machine α} (hp : m.producer = .drained)
    (hcell : m.cell.captured = none) :
    m.step .producer =
      some { m with producer := .finishing { script := m.setup.processor.finishHook } } := by
  simp only [step, stepProducer, hp, conclude, hcell]

/-- A complete drain with an empty cell waits for nothing but the hook: whoever moves, the phase
stays `drained` with the cell still empty, or the hook begins. -/
theorem drained_step {m m' : Machine α} {move : Move α} (htickets : m.TicketsOk)
    (hp : m.producer = .drained) (hcell : m.cell.captured = none) (hstep : m.step move = some m') :
    m'.producer = .drained ∧ m'.cell.captured = none ∨ m.callsFinishHook m' = true := by
  have ht := transition_of_step hstep
  have hstill := captured_still htickets ht (Or.inl hp)
  rw [hcell] at hstill
  cases ht with
  | violation idle | start idle | submit idle | finish idle =>
    rw [hp] at idle
    cases idle
  | abandonStart phase | abandonFinish phase =>
    rw [hp] at phase
    cases phase
  | abandonWait phase =>
    rw [hp] at phase
    rcases phase with ⟨_, phase⟩ | phase <;> cases phase
  | producer =>
    rw [step_of_drained hp hcell] at hstep
    cases hstep
    rw [callsFinishHook, hp]
    exact Or.inr rfl
  | worker _ hw => exact Or.inl ⟨(SameCall.of_worker hw).producer.trans hp, hstill⟩
  | drop _ _ hd => exact Or.inl ⟨(SameCall.of_drop hd).producer.trans hp, hstill⟩
  | cancel | world => exact Or.inl ⟨hp, hcell⟩

theorem drained_run {m m' : Machine α} {later : List (Move α)} (htickets : m.TicketsOk)
    (hp : m.producer = .drained) (hcell : m.cell.captured = none) (hrun : m.run later = some m') :
    m'.producer = .drained ∨ 0 < m.finishHooks later := by
  induction later generalizing m with
  | nil =>
    cases hrun
    exact Or.inl hp
  | cons move later ih =>
    obtain ⟨m₁, h₁, h₂⟩ := Option.bind_eq_some_iff.mp hrun
    simp only [finishHooks, h₁]
    rcases drained_step htickets hp hcell h₁ with ⟨hp₁, hcell₁⟩ | hcalls
    · refine (ih (htickets.step (transition_of_step h₁)) hp₁ hcell₁ h₂).imp_right fun hpos => ?_
      omega
    · rw [hcalls]
      exact Or.inr (by rw [Bool.toNat_true]; omega)

/-! ## The answer of a finish -/

theorem failure?_hookReply (m : Machine α) (hook : Hook) (outcome : Outcome) :
    (m.setup.hookReply hook outcome).failure? = none := by
  cases outcome <;> rfl

theorem finish_end {m m' : Machine α} {move : Move α} {current : Option (Call α)} {r : Reply}
    (hord : m.Orderly current) (ht : Transition m move m') (how : CallEnd m m' r)
    (hcall : move.call?.or current = some .finish) (hdrained : r.isDrained = true) :
    ((m.producer = .drained ∧ ∃ f, m.cell.captured = some f ∧ r.failure? = some f) ∨
      (m.producer.isFinishing = true ∧ r.failure? = none)) ∧ m'.workers = m.workers := by
  have hfinish (busy : m.producer ≠ .idle) : current = some .finish := by
    rwa [call?_eq_none ht busy] at hcall
  have hserves := hord.serves
  cases how with
  | violation | cancelled => cases hdrained
  | failed phase full workers => exact ⟨Or.inl ⟨phase, _, full, rfl⟩, workers⟩
  | finishHook phase workers =>
    exact ⟨Or.inr ⟨by rw [phase]; rfl, m.failure?_hookReply _ _⟩, workers⟩
  | startHook phase | tooLate phase | left phase =>
    rw [phase, hfinish (by rw [phase]; nofun)] at hserves
    cases hserves
  | refused phase | outdone phase =>
    rw [phase, hfinish (by rw [phase]; nofun)] at hserves
    obtain ⟨_, _, -, -, hsub⟩ := hserves
    cases hsub
  | taken phase =>
    rcases phase with phase | phase
    all_goals
      rw [phase, hfinish (by rw [phase]; nofun)] at hserves
      obtain ⟨_, _, -, -, hsub⟩ := hserves
      cases hsub

/-- The bundle is over, after a finish that was answered so and `hooks` calls of the hook. The
answer carries the captured failure, and the hook was called just if there is none; `Quiet` makes
both final. -/
structure IsOver (m : Machine α) (hooks : Nat) (r : Reply) : Prop where
  quiet : m.Quiet
  stage : m.stage = .finished
  failure : r.failure? = m.cell.captured
  hooks : hooks = if m.cell.captured.isSome then 0 else 1

theorem IsOver.step {m m' : Machine α} {move : Move α} {hooks : Nat} {r : Reply}
    (h : m.IsOver hooks r) (ht : Transition m move m') :
    m'.IsOver (hooks + (m.callsFinishHook m').toNat) r := by
  obtain ⟨hq', hstage', -, hcell⟩ := h.quiet.step ht (Or.inl h.stage)
  refine ⟨hq', hstage'.trans h.stage, h.failure.trans hcell.symm, ?_⟩
  rw [callsFinishHook, hq'.idle, hcell]
  exact h.hooks

theorem stage_of_drained {m : Machine α} {current : Option (Call α)} (hord : m.Orderly current)
    (hp : m.producer = .drained ∨ m.producer.isFinishing = true) : m.stage = .finished := by
  refine hord.stage _ ?_
  rcases hp with hp | hp
  · rw [hp]
    rfl
  · cases hm : m.producer <;> rw [hm] at hp <;> first | rfl | cases hp

theorem isOver_of_end {m m' : Machine α} {move : Move α} {current : Option (Call α)} {r : Reply}
    {hooks : Nat} (hord : m.Orderly current) (htickets : m.TicketsOk) (hcount : m.HookCount hooks)
    (ht : Transition m move m') (idle : m'.producer = .idle)
    (stage : m'.stage = m.stage ∨ ∃ a, m.producer = .starting a) (how : CallEnd m m' r)
    (hcall : move.call?.or current = some .finish) (hdrained : r.isDrained = true) :
    m'.IsOver (hooks + (m.callsFinishHook m').toNat) r := by
  obtain ⟨hphase, hworkers⟩ := finish_end hord ht how hcall hdrained
  have hp : m.producer = .drained ∨ m.producer.isFinishing = true :=
    hphase.imp And.left And.left
  have hstage : m'.stage = .finished := by
    rcases stage with hs | ⟨a, hstart⟩
    · exact hs.trans (stage_of_drained hord hp)
    · rw [hstart] at hp
      rcases hp with hp | hp <;> cases hp
  have hstill := captured_still htickets ht hp
  refine ⟨⟨idle, by rw [hworkers]; exact htickets.inFlight_zero hp⟩, hstage, ?_, ?_⟩
  · rw [hstill]
    rcases hphase with ⟨-, f, hfull, hr⟩ | ⟨hf, hr⟩
    · rw [hr, hfull]
    · rw [hr, (hcount.during hf).2]
  · rw [callsFinishHook, idle, hstill]
    show hooks = _
    rcases hphase with ⟨hdrained, f, hfull, -⟩ | ⟨hf, -⟩
    · rw [hcount.before (Or.inr (Or.inr hdrained)), hfull]
      rfl
    · rw [(hcount.during hf).1, (hcount.during hf).2]
      rfl

/-- What a run says about its drain. The last field is the one that matters: a finish whose reply
`isDrained` has left the bundle `IsOver`; the others are the invariants it needs. -/
structure Drains (m₀ : Machine α) (moves : List (Move α)) (m : Machine α) : Prop where
  orderly : m.Orderly (lastCall none moves)
  tickets : m.TicketsOk
  hooks : m.HookCount (m₀.finishHooks moves)
  ended : ∀ r, (Call.finish, r) ∈ m₀.exchanges moves → r.isDrained = true →
    m.IsOver (m₀.finishHooks moves) r

theorem Drains.step {m₀ m m' : Machine α} {moves : List (Move α)} {move : Move α}
    (hd : m₀.Drains moves m) (hrun : m₀.run moves = some m) (hstep : m.step move = some m') :
    m₀.Drains (moves ++ [move]) m' := by
  have ht := transition_of_step hstep
  have hhooks := finishHooks_concat hrun hstep
  refine ⟨?_, hd.tickets.step ht, ?_, ?_⟩
  · rw [lastCall_concat]
    exact hd.orderly.step ht
  · rw [hhooks]
    exact hd.hooks.step hd.orderly hd.tickets ht
  · intro r hr hdrained
    rw [exchanges_concat hrun hstep, lastCall_concat] at hr
    rw [hhooks]
    rcases List.mem_append.mp hr with hr | hr
    · exact (hd.ended r hr hdrained).step ht
    · cases callStep ht with
      | goesOn replies =>
        rw [answered_of_replies_eq replies] at hr
        cases hr
      | ends replies idle stage how =>
        rw [answered_of_reply replies, Option.mem_toList, Option.map_eq_some_iff] at hr
        obtain ⟨c, hcall, hpair⟩ := hr
        cases hpair
        exact isOver_of_end hd.orderly hd.tickets hd.hooks ht idle stage how hcall hdrained

theorem drains {setup : Setup α} {scope : Scope} {moves : List (Move α)} {m : Machine α}
    (hrun : (Machine.new setup scope).run moves = some m) :
    (Machine.new setup scope).Drains moves m := by
  refine run_induction ?_ (fun hrun hd hstep => hd.step hrun hstep) hrun
  exact ⟨.new setup scope, .new setup scope, .new setup scope, fun r hr => by cases hr⟩

/-! ## Items outside the time of a bundle -/

theorem Orderly.empty_step {m m' : Machine α} {move : Move α} {current : Option (Call α)}
    (h : m.Orderly current) (ht : Transition m move m')
    (hempty : m.stage = .created → m.workers = []) (hs' : m'.stage = .created) :
    m'.workers = [] := by
  have hs := h.created_before ht hs'
  cases workersStep ht with
  | same workers => rw [workers, hempty hs]
  | more phase =>
    have hstarted := h.stage .started (by rw [phase]; rfl)
    rw [hs] at hstarted
    cases hstarted
  | change worker =>
    rw [hempty hs] at worker
    cases worker

section

variable {setup : Setup α} {scope : Scope} {moves : List (Move α)} {m : Machine α}

theorem workers_of_created (hrun : (Machine.new setup scope).run moves = some m)
    (hs : m.stage = .created) : m.workers = [] := by
  refine run_induction (Q := fun _ m => m.stage = .created → m.workers = []) (fun _ => rfl) ?_
    hrun hs
  intro moves m m' move hrun h hstep
  exact (drains hrun).orderly.empty_step (transition_of_step hstep) h

/-- A bundle that is finished takes no more items, because `Machine.hand` is reached only from a
submission and a submission is refused by then. -/
theorem items_of_finished (hrun : (Machine.new setup scope).run moves = some m)
    (hs : m.stage = .finished) {later : List (Move α)} {m' : Machine α}
    (hlater : m.run later = some m') : m'.items = m.items := by
  have hstays : (∃ current, m'.Orderly current) ∧ m'.stage = .finished ∧ m'.items = m.items := by
    refine run_invariant (I := fun m' =>
      (∃ current, m'.Orderly current) ∧ m'.stage = .finished ∧ m'.items = m.items)
      ?_ ⟨⟨_, (drains hrun).orderly⟩, hs, rfl⟩ hlater
    rintro m₁ m₂ move ⟨⟨current, hord⟩, hs₁, hitems⟩ ht
    refine ⟨⟨_, hord.step ht⟩, hord.finished_after ht hs₁, ?_⟩
    rw [items_step ht, hitems]
    intro item hp
    have hstage := hord.stage .started (by rw [hp]; rfl)
    rw [hs₁] at hstage
    cases hstage
  exact hstays.2.2

end

end Machine

end WorkBundle
