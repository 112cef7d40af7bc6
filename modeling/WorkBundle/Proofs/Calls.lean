import WorkBundle.Proofs.Gate
import WorkBundle.Proofs.History
import WorkBundle.Proofs.Workers

/-!
# The call in progress

The phase of the producer says which call is in progress, and the stage of the bundle says which
phases there can be: `Orderly` holds both facts, together with the last call of the history, so
that a reply can be read as the reply to a certain call in a certain phase. `CallEnd` lists the
ways in which a call ends, each with its reply and with what it leaves of the failure cell and of
the items.

What workers do, and what the backend does to them, is no business of the call: `SameCall` says what
stays.
-/

set_option autoImplicit false

namespace WorkBundle

variable {α : Type}

/-- The stage at which a call can be in this phase. The code switches on the state of the bundle
once, when the call is made; that the stage is still the same later is the invariant `Orderly`, not
a check. -/
def Phase.stage? : Phase α → Option Stage
  | .idle => none
  | .starting _ => some .created
  | .draining | .drained | .finishing _ => some .finished
  | _ => some .started

/-- The call that is in this phase, where `items` were handed over so far. From `polling` on the
submission no longer carries its item, and `Serves` says where it went: it is the last of `items`.
-/
def Phase.Serves (items : List (WorkItem α)) (current : Option (Call α)) : Phase α → Prop
  | .idle => True
  | .starting _ => current = some .start
  | .admitting item | .checking item | .handing item => current = some (.submit item)
  | .polling n | .dropping n | .refused ⟨n, _, _⟩ | .outdone ⟨n, _, _⟩ =>
    ∃ earlier item, items = earlier ++ [item] ∧ earlier.length = n ∧ current = some (.submit item)
  | .draining | .drained | .finishing _ => current = some .finish

/-- The number of the item that the call has handed over and that the backend has not yet answered
for. Only while there is one can a task be `refused`, or dropped on the call's own stack. -/
def Phase.handed? : Phase α → Option Nat
  | .polling n | .dropping n | .refused ⟨n, _, _⟩ | .outdone ⟨n, _, _⟩ => some n
  | _ => none

def Move.isInner : Move α → Bool
  | .call _ | .abandon | .cancel => false
  | _ => true

def Phase.isFinishing : Phase α → Bool
  | .finishing _ => true
  | _ => false

namespace Machine

def items (m : Machine α) : List (WorkItem α) := m.workers.map (·.item)

theorem items_hand (m : Machine α) (item : WorkItem α) :
    (m.hand item).items = m.items ++ [item] := by
  rcases m.hand_cases item with ⟨-, heq⟩ | ⟨-, heq⟩ | ⟨-, -, heq⟩
  all_goals
    rw [heq]
    exact List.map_append

/-! ## What workers leave alone -/

/-- What a step of the surroundings leaves alone: everything about the calls. Phases of workers,
`cell`, `scope`, and what was sent or logged may differ. -/
structure SameCall (m m' : Machine α) : Prop where
  setup : m'.setup = m.setup
  stage : m'.stage = m.stage
  producer : m'.producer = m.producer
  replies : m'.replies = m.replies
  dispatched : m'.dispatched = m.dispatched
  items : m'.items = m.items

theorem SameCall.setPhase (m : Machine α) (n : Nat) (p : WorkerPhase α) :
    SameCall m (m.setPhase n p) :=
  ⟨rfl, rfl, rfl, rfl, rfl, m.items_setPhase n p⟩

theorem SameCall.lose (m : Machine α) (n : Nat) (a : Activity α) : SameCall m (m.lose n a) := by
  obtain ⟨lock, supply, tally, heq⟩ := m.lose_eq n a
  rw [heq]
  exact ⟨rfl, rfl, rfl, rfl, rfl, m.items_setPhase n _⟩

theorem SameCall.of_worker {m m' : Machine α} {n : Nat} {w : Worker α} (h : WorkerStep m n w m') :
    SameCall m m' := by
  cases h with
  | begin => exact ⟨rfl, rfl, rfl, rfl, rfl, m.items_setPhase n _⟩
  | goOn _ _ hact =>
    obtain ⟨_, _, _, _, _, _, rfl⟩ := act_eq hact
    exact ⟨rfl, rfl, rfl, rfl, rfl, m.items_setPhase n _⟩
  | @finish _ outcome _ _ _ hact =>
    obtain ⟨_, _, _, _, _, _, rfl⟩ := act_eq hact
    cases outcome <;> exact ⟨rfl, rfl, rfl, rfl, rfl, m.items_setPhase n _⟩
  | @offer f e =>
    rcases m.offer_cases n f e with ⟨-, heq⟩ | ⟨_, -, heq⟩
    all_goals
      rw [heq]
      exact ⟨rfl, rfl, rfl, rfl, rfl, m.items_setPhase n _⟩
  | count => exact ⟨rfl, rfl, rfl, rfl, rfl, m.items_setPhase n _⟩
  | leave => exact ⟨rfl, rfl, rfl, rfl, rfl, m.items_setPhase n _⟩
  | @close e =>
    obtain ⟨tally, log, heq⟩ := m.close_eq n e
    rw [heq]
    exact ⟨rfl, rfl, rfl, rfl, rfl, m.items_setPhase n _⟩

theorem SameCall.of_drop {m m' : Machine α} {n : Nat} {w : Worker α} (h : TaskDrop m n w m') :
    SameCall m m' := by
  cases h with
  | queued => exact .setPhase m n _
  | working => exact .lose m n _

/-! ## How a call ends -/

/-- How a call can end, with the reply it gives. One constructor for each place where the code of
the three calls returns, with the guard under which it does; `callStep` proves that there is no
other. -/
inductive CallEnd (m m' : Machine α) : Reply → Prop
  | violation {v : LifecycleViolation} (phase : m.producer = .idle) :
      CallEnd m m' (.answer (.error (.lifecycle v)))
  | startHook {a : Activity α} {outcome : Outcome} (phase : m.producer = .starting a)
      (workers : m'.workers = m.workers) (begun : outcome = .returned → m'.stage = .started) :
      CallEnd m m' (m.setup.hookReply .start outcome)
  | cancelled {point : CancelPoint} (cancelled : m.gate.cancelled = true)
      (phase : (∃ item, m.producer = .admitting item) ∨ m.producer = .draining) :
      CallEnd m m' (.answer (.error (.cancelled point)))
  | tooLate {item : WorkItem α} {f : Failure} (phase : m.producer = .checking item)
      (full : m.cell.captured = some f) : CallEnd m m' (.answer (.error f.toError))
  | left {item : WorkItem α} (phase : m.producer = .handing item)
      (items : m'.items = m.items ++ [item]) (kept : m.verdict m.dispatched = .run) :
      CallEnd m m' (.answer (.ok ()))
  | taken {n : Nat} (phase : m.producer = .polling n ∨ m.producer = .dropping n)
      (kept : m.verdict n ≠ .refuse) : CallEnd m m' (.answer (.ok ()))
  | refused {f : Failure} (phase : m.producer = .refused f) (empty : m.cell.captured = none)
      (full : m'.cell.captured = some f) : CallEnd m m' (.answer (.error f.toError))
  | outdone {f : Failure} (phase : m.producer = .outdone f) :
      CallEnd m m' (.answer (.error f.toError))
  | failed {f : Failure} (phase : m.producer = .drained) (full : m.cell.captured = some f)
      (workers : m'.workers = m.workers) : CallEnd m m' (.answer (.error f.toError))
  | finishHook {a : Activity α} {outcome : Outcome} (phase : m.producer = .finishing a)
      (workers : m'.workers = m.workers) : CallEnd m m' (m.setup.hookReply .finish outcome)

theorem CallEnd.at_stage {m m' : Machine α} {r : Reply} (h : CallEnd m m' r) :
    match m.producer.stage? with
    | none => ∃ v, r = .answer (.error (.lifecycle v))
    | some .created => ∃ outcome, r = m.setup.hookReply .start outcome ∧ m'.workers = m.workers ∧
        (outcome = .returned → m'.stage = .started)
    | some .started => ∃ answer, r = .answer answer
    | some .finished => m.gate.cancelled = true ∨ m'.workers = m.workers ∧
        (m.producer = .drained ∨ m.producer.isFinishing = true) := by
  cases h with
  | violation phase => rw [phase]; exact ⟨_, rfl⟩
  | startHook phase workers begun => rw [phase]; exact ⟨_, rfl, workers, begun⟩
  | cancelled cancelled phase =>
    rcases phase with ⟨item, phase⟩ | phase
    · rw [phase]; exact ⟨_, rfl⟩
    · rw [phase]; exact Or.inl cancelled
  | tooLate phase | left phase | refused phase | outdone phase => rw [phase]; exact ⟨_, rfl⟩
  | taken phase =>
    rcases phase with phase | phase
    all_goals rw [phase]; exact ⟨_, rfl⟩
  | failed phase _ workers => rw [phase]; exact Or.inr ⟨workers, Or.inl rfl⟩
  | finishHook phase workers => rw [phase]; exact Or.inr ⟨workers, Or.inr rfl⟩

/-- The items that were handed over stay the same, or the call that is `handing` an item hands it
over and then has its number in `handed?`. -/
def Hands (m m' : Machine α) : Prop :=
  m'.producer.handed? = m.producer.handed? ∧ m'.items = m.items ∨
    ∃ item, m.producer = .handing item ∧ m'.producer.handed? = some m.dispatched ∧
      m'.items = m.items ++ [item]

/-- What a step makes of the call in progress: it goes on, in a phase of the same `stage?` unless it
is made or given up, or it ends with a reply of `CallEnd`. Every result about replies splits on
these two cases and not on the constructors of `Transition`. -/
inductive CallStep (m m' : Machine α) (move : Move α) : Prop
  | goesOn (replies : m'.replies = m.replies)
      (phase : move.isInner = true →
        m'.producer.stage? = m.producer.stage? ∧ m'.stage = m.stage)
      (hands : m.Hands m')
  | ends {reply : Reply} (replies : m'.replies = m.replies ++ [reply]) (idle : m'.producer = .idle)
      (stage : m'.stage = m.stage ∨ ∃ a, m.producer = .starting a) (how : CallEnd m m' reply)
      (own : move = .producer ∨ m.producer = .idle)

theorem callStep_of_producer {m m' : Machine α} (h : ProducerStep m m') :
    CallStep m m' .producer := by
  -- A call that goes on goes to a phase of the same stage.
  have hon {m₁ : Machine α} (replies : m₁.replies = m.replies) (stage : m₁.stage = m.stage)
      (phase : m₁.producer.stage? = m.producer.stage?)
      (handed : m₁.producer.handed? = m.producer.handed?) (items : m₁.items = m.items) :
      CallStep m m₁ .producer :=
    .goesOn replies (fun _ => ⟨phase, stage⟩) (Or.inl ⟨handed, items⟩)
  cases h with
  | startOn phase hact | finishOn phase hact =>
    obtain ⟨_, _, _, _, _, _, rfl⟩ := act_eq hact
    exact hon rfl rfl (by rw [phase]; rfl) (by rw [phase]; rfl) rfl
  | @startEnd a outcome _ phase hact =>
    obtain ⟨_, _, _, _, _, _, rfl⟩ := act_eq hact
    have how {m₁ : Machine α} (hworkers : m₁.workers = m.workers)
        (hbegun : outcome = .returned → m₁.stage = .started) :
        CallEnd m m₁ (m.setup.hookReply .start outcome) := .startHook phase hworkers hbegun
    cases outcome with
    | returned => exact .ends rfl rfl (Or.inr ⟨a, phase⟩) (how rfl fun _ => rfl) (Or.inl rfl)
    | failed => exact .ends rfl rfl (Or.inr ⟨a, phase⟩) (how rfl nofun) (Or.inl rfl)
    | panicked => exact .ends rfl rfl (Or.inr ⟨a, phase⟩) (how rfl nofun) (Or.inl rfl)
  | @ask item phase =>
    unfold askTicket askGate
    split
    · exact hon rfl rfl rfl rfl rfl
    · exact hon rfl rfl (by rw [phase]; rfl) (by rw [phase]; rfl) rfl
    · rename_i g e hask
      obtain ⟨hcancelled, -, rfl⟩ := Gate.ask_error hask
      exact .ends rfl rfl (Or.inl rfl) (.cancelled hcancelled (Or.inl ⟨item, phase⟩)) (Or.inl rfl)
  | check phase =>
    unfold check
    split
    · exact .ends rfl rfl (Or.inl rfl) (.tooLate phase ‹_›) (Or.inl rfl)
    · exact hon rfl rfl (by rw [phase]; rfl) (by rw [phase]; rfl) rfl
  -- The one step that adds an item.
  | @hand item phase =>
    have hitems : (m.enlist item).items = m.items ++ [item] := List.map_append
    rcases m.hand_cases item with ⟨-, heq⟩ | ⟨hkept, heq⟩ | ⟨-, -, heq⟩
    · rw [heq]
      exact .goesOn rfl (fun _ => ⟨by rw [phase]; rfl, rfl⟩) (Or.inr ⟨item, phase, rfl, hitems⟩)
    · rw [heq]
      exact .ends rfl rfl (Or.inl rfl) (.left phase hitems hkept) (Or.inl rfl)
    · rw [heq]
      exact .goesOn rfl (fun _ => ⟨by rw [phase]; rfl, rfl⟩) (Or.inr ⟨item, phase, rfl, hitems⟩)
  | keep phase _ verdict =>
    exact .ends rfl rfl (Or.inl rfl) (.taken (Or.inl phase) (by rw [verdict]; nofun)) (Or.inl rfl)
  | @dropPolled n _ a phase =>
    have hsame := SameCall.lose { m with producer := .dropping n } n a
    exact hon hsame.replies hsame.stage (by rw [hsame.producer, phase]; rfl)
      (by rw [hsame.producer, phase]; rfl) hsame.items
  | dropQueued => exact hon rfl rfl rfl rfl (m.items_setPhase _ _)
  -- The call ends unless the item is refused; then it has the refusal in hand.
  | @answer n _ e phase =>
    have htaken : m.producer = .polling n ∨ m.producer = .dropping n :=
      phase.symm.imp_left fun h => h.1
    rcases (m.setPhase n (.ended e)).verdictOf_cases n with ⟨-, heq⟩ | ⟨hkept, heq⟩
    · rw [heq]
      have hphase : m.producer.stage? = some .started ∧ m.producer.handed? = some n := by
        rcases htaken with hp | hp
        all_goals rw [hp]; exact ⟨rfl, rfl⟩
      exact hon rfl rfl hphase.1.symm hphase.2.symm (m.items_setPhase _ _)
    · rw [heq]
      exact .ends rfl rfl (Or.inl rfl) (.taken htaken hkept) (Or.inl rfl)
  | refusalCaptured phase empty =>
      exact .ends rfl rfl (Or.inl rfl) (.refused phase empty rfl) (Or.inl rfl)
  | refusalLate phase => exact hon rfl rfl (by rw [phase]; rfl) (by rw [phase]; rfl) rfl
  | refusalCounted phase => exact .ends rfl rfl (Or.inl rfl) (.outdone phase) (Or.inl rfl)
  | drain phase =>
    unfold askEverything askGate
    split
    · exact hon rfl rfl rfl rfl rfl
    · exact hon rfl rfl (by rw [phase]; rfl) (by rw [phase]; rfl) rfl
    · rename_i g e hask
      obtain ⟨hcancelled, -, rfl⟩ := Gate.ask_error hask
      exact .ends rfl rfl (Or.inl rfl) (.cancelled hcancelled (Or.inr phase)) (Or.inl rfl)
  | conclude phase =>
    unfold conclude
    split
    · exact .ends rfl rfl (Or.inl rfl) (.failed phase ‹_› rfl) (Or.inl rfl)
    · exact hon rfl rfl (by rw [phase]; rfl) (by rw [phase]; rfl) rfl
  | @finishEnd _ outcome _ phase hact =>
    obtain ⟨_, _, _, _, _, _, rfl⟩ := act_eq hact
    have how {m₁ : Machine α} (hworkers : m₁.workers = m.workers) :
        CallEnd m m₁ (m.setup.hookReply .finish outcome) := .finishHook phase hworkers
    cases outcome <;> exact .ends rfl rfl (Or.inl rfl) (how rfl) (Or.inl rfl)

/-- Every transition is a `CallStep`. At most one call ends in a step, since `Machine.producer` is
one phase: the engine takes its calls by exclusive reference. -/
theorem callStep {m m' : Machine α} {move : Move α} (h : Transition m move m') :
    CallStep m m' move := by
  have hsame (h : SameCall m m') : CallStep m m' move :=
    .goesOn h.replies (fun _ => ⟨by rw [h.producer], h.stage⟩)
      (Or.inl ⟨by rw [h.producer], h.items⟩)
  cases h with
  | violation idle => exact .ends rfl rfl (Or.inl rfl) (.violation idle) (Or.inr idle)
  | start idle | submit idle | finish idle =>
    exact .goesOn rfl nofun (Or.inl ⟨by rw [idle]; rfl, rfl⟩)
  | abandonWait phase =>
    refine .goesOn rfl nofun (Or.inl ⟨?_, rfl⟩)
    rcases phase with ⟨item, hp⟩ | hp
    all_goals rw [hp]; rfl
  | cancel => exact .goesOn rfl nofun (Or.inl ⟨rfl, rfl⟩)
  | world => exact .goesOn rfl (fun _ => ⟨rfl, rfl⟩) (Or.inl ⟨rfl, rfl⟩)
  | @abandonStart a phase | @abandonFinish a phase =>
    obtain ⟨tally, heq⟩ := m.forsakeHook_eq a
    rw [heq]
    exact .goesOn rfl nofun (Or.inl ⟨by rw [phase]; rfl, rfl⟩)
  | producer hstep => exact callStep_of_producer hstep
  | worker _ hstep => exact hsame (.of_worker hstep)
  | drop _ _ hstep => exact hsame (.of_drop hstep)

theorem not_idle_of_producerStep {m m' : Machine α} (h : ProducerStep m m') :
    m.producer ≠ .idle := by
  intro idle
  cases h with
  | answer phase =>
    rcases phase with hp | ⟨hp, -⟩
    all_goals
      rw [idle] at hp
      cases hp
  | _ =>
    rename m.producer = _ => hp
    rw [idle] at hp
    cases hp

theorem call?_eq_none {m m' : Machine α} {move : Move α} (h : Transition m move m')
    (busy : m.producer ≠ .idle) : move.call? = none := by
  cases h with
  | violation idle | start idle | submit idle | finish idle => exact absurd idle busy
  | world world => exact Move.call?_of_isWorld world
  | _ => rfl

theorem sameCall_of_inner {m m' : Machine α} {move : Move α} (h : Transition m move m')
    (hinner : move.isInner = true) (hproducer : move ≠ .producer) : SameCall m m' := by
  cases h with
  | violation | start | submit | finish | abandonStart | abandonWait | abandonFinish | cancel =>
    cases hinner
  | producer => exact absurd rfl hproducer
  | worker _ hstep => exact .of_worker hstep
  | drop _ _ hstep => exact .of_drop hstep
  | world => exact ⟨rfl, rfl, rfl, rfl, rfl, rfl⟩

theorem ne_producer_of_idle {m m' : Machine α} {move : Move α} (h : Transition m move m')
    (idle : m.producer = .idle) : move ≠ .producer := by
  rintro rfl
  cases h with
  | producer hstep => exact not_idle_of_producerStep hstep idle
  | world world => cases world

/-- A call that cannot be given up in its phase goes on only by its own steps, because `call` needs
an idle producer and `abandon` a phase where the call waits. -/
theorem same_or_producerStep {m m' : Machine α} {move : Move α} (h : Transition m move m')
    (busy : m.producer ≠ .idle) (held : m.abandon = none) : SameCall m m' ∨ ProducerStep m m' := by
  cases h with
  | violation idle | start idle | submit idle | finish idle => exact absurd idle busy
  | abandonStart phase | abandonFinish phase =>
    simp only [abandon, phase] at held
    cases held
  | abandonWait phase =>
    rcases phase with ⟨item, phase⟩ | phase
    all_goals
      simp only [abandon, phase] at held
      cases held
  | producer hstep => exact Or.inr hstep
  | worker _ hstep => exact Or.inl (.of_worker hstep)
  | drop _ _ hstep => exact Or.inl (.of_drop hstep)
  | cancel | world => exact Or.inl ⟨rfl, rfl, rfl, rfl, rfl, rfl⟩

theorem hand_of_producerStep {m m' : Machine α} {item : WorkItem α} (h : ProducerStep m m')
    (hp : m.producer = .handing item) : m' = m.hand item := by
  cases h with
  | hand phase =>
    rw [hp] at phase
    cases phase
    rfl
  | answer phase =>
    rw [hp] at phase
    rcases phase with phase | ⟨phase, -⟩ <;> cases phase
  | _ =>
    rename m.producer = _ => phase
    rw [hp] at phase
    cases phase

theorem handing_step {m m' : Machine α} {move : Move α} {item : WorkItem α}
    (h : Transition m move m') (hp : m.producer = .handing item) :
    SameCall m m' ∨ m' = m.hand item :=
  (same_or_producerStep h (by rw [hp]; nofun) (by simp only [abandon, hp])).imp_right
    fun hstep => hand_of_producerStep hstep hp

/-! ## Phases, stages and calls agree -/

/-- The phase of the producer fits the stage of the bundle and the call that was made last.
`numbered` is why a worker's number is the one its item was submitted under. -/
structure Orderly (m : Machine α) (current : Option (Call α)) : Prop where
  numbered : m.dispatched = m.workers.length
  stage : ∀ s, m.producer.stage? = some s → m.stage = s
  serves : m.producer.Serves m.items current

namespace Orderly

variable {m m' : Machine α} {current : Option (Call α)}

theorem new (setup : Setup α) (scope : Scope) : (Machine.new setup scope).Orderly none where
  numbered := rfl
  stage := fun _ hs => by cases hs
  serves := trivial

theorem same (h : m.Orderly current) (hsame : SameCall m m') : m'.Orderly current := by
  have hlength : m'.workers.length = m.workers.length := by
    simpa [items] using congrArg List.length hsame.items
  refine ⟨?_, ?_, ?_⟩
  · rw [hsame.dispatched, hlength]
    exact h.numbered
  · rw [hsame.producer, hsame.stage]
    exact h.stage
  · rw [hsame.producer, hsame.items]
    exact h.serves

theorem idle (h : m.Orderly current) {current' : Option (Call α)}
    (hworkers : m'.workers = m.workers) (hdispatched : m'.dispatched = m.dispatched)
    (hp : m'.producer = .idle) : m'.Orderly current' := by
  refine ⟨?_, ?_, ?_⟩
  · rw [hdispatched, hworkers]
    exact h.numbered
  · rw [hp]
    intro s hs
    cases hs
  · rw [hp]
    trivial

theorem goOn (h : m.Orderly current) {p : Phase α} (hp : m.producer = p)
    (hworkers : m'.workers = m.workers) (hdispatched : m'.dispatched = m.dispatched)
    (hstage : m'.stage = m.stage) (hphase : m'.producer.stage? = p.stage?)
    (hserves : p.Serves m.items current → m'.producer.Serves m.items current) :
    m'.Orderly current := by
  subst hp
  have hitems : m'.items = m.items := by rw [items, hworkers]; rfl
  refine ⟨?_, ?_, ?_⟩
  · rw [hdispatched, hworkers]
    exact h.numbered
  · rw [hphase, hstage]
    exact h.stage
  · rw [hitems]
    exact hserves h.serves

theorem hand (h : m.Orderly current) {item : WorkItem α} (hp : m.producer = .handing item) :
    (m.hand item).Orderly current := by
  have hserves := h.serves
  have hstage := h.stage
  rw [hp] at hserves hstage
  have hnumbered : (m.enlist item).dispatched = (m.enlist item).workers.length := by
    show m.dispatched + 1 = (m.workers ++ [_]).length
    rw [List.length_append, h.numbered]
    rfl
  have hitems : (m.enlist item).items = m.items ++ [item] := List.map_append
  have hlength : m.items.length = m.dispatched := by
    rw [items, List.length_map, h.numbered]
  have hlast : ∃ earlier last, (m.enlist item).items = earlier ++ [last] ∧
      earlier.length = m.dispatched ∧ current = some (.submit last) :=
    ⟨m.items, item, hitems, hlength, hserves⟩
  rcases m.hand_cases item with ⟨-, heq⟩ | ⟨-, heq⟩ | ⟨-, -, heq⟩
  · rw [heq]
    exact ⟨hnumbered, hstage, hlast⟩
  · rw [heq]
    exact ⟨hnumbered, fun _ hs => (by cases hs), trivial⟩
  · rw [heq]
    exact ⟨hnumbered, hstage, hlast⟩

theorem producer (h : m.Orderly current) (hstep : ProducerStep m m') : m'.Orderly current := by
  cases hstep with
  | startOn phase hact =>
    obtain ⟨_, _, _, _, _, _, rfl⟩ := act_eq hact
    exact h.goOn phase rfl rfl rfl rfl id
  | @startEnd _ outcome _ _ hact =>
    obtain ⟨_, _, _, _, _, _, rfl⟩ := act_eq hact
    cases outcome <;> exact h.idle rfl rfl rfl
  | ask phase =>
    unfold askTicket askGate
    split
    · exact h.goOn rfl rfl rfl rfl rfl id
    · exact h.goOn phase rfl rfl rfl rfl id
    · exact h.idle rfl rfl rfl
  | check phase =>
    unfold check
    split
    · exact h.idle rfl rfl rfl
    · exact h.goOn phase rfl rfl rfl rfl id
  | hand phase => exact h.hand phase
  | keep => exact h.idle rfl rfl rfl
  | @dropPolled n w a phase =>
    refine same ?_ (SameCall.lose { m with producer := .dropping n } n a)
    exact h.goOn phase rfl rfl rfl rfl id
  | dropQueued => exact h.same (.setPhase m _ _)
  -- A refusal carries the number of the item, so the call it serves is the same.
  | @answer n w e phase =>
    have hset := h.same (.setPhase m n (.ended e))
    rcases (m.setPhase n (.ended e)).verdictOf_cases n with ⟨-, heq⟩ | ⟨-, heq⟩
    · rw [heq]
      rcases phase with hp | ⟨hp, -⟩
      all_goals
        exact hset.goOn ((SameCall.setPhase m n _).producer.trans hp) rfl rfl rfl rfl id
    · rw [heq]
      exact hset.idle rfl rfl rfl
  | refusalCaptured => exact h.idle rfl rfl rfl
  | refusalLate phase =>
    exact h.goOn phase rfl rfl rfl rfl id
  | refusalCounted => exact h.idle rfl rfl rfl
  | drain phase =>
    unfold askEverything askGate
    split
    · exact h.goOn rfl rfl rfl rfl rfl id
    · exact h.goOn phase rfl rfl rfl rfl id
    · exact h.idle rfl rfl rfl
  | conclude phase =>
    unfold conclude
    split
    · exact h.idle rfl rfl rfl
    · exact h.goOn phase rfl rfl rfl rfl id
  | finishOn phase hact =>
    obtain ⟨_, _, _, _, _, _, rfl⟩ := act_eq hact
    exact h.goOn phase rfl rfl rfl rfl id
  | @finishEnd _ outcome _ _ hact =>
    obtain ⟨_, _, _, _, _, _, rfl⟩ := act_eq hact
    cases outcome <;> exact h.idle rfl rfl rfl

/-- Every transition keeps `Orderly`, where the last call is the one of the move if it makes one. -/
theorem step (h : m.Orderly current) {move : Move α} (ht : Transition m move m') :
    m'.Orderly (move.call?.or current) := by
  have hn := h.numbered
  cases ht with
  | violation idle => exact h.idle rfl rfl rfl
  | start _ stage => exact ⟨hn, fun s hs => by cases hs; exact stage, rfl⟩
  | submit _ stage => exact ⟨hn, fun s hs => by cases hs; exact stage, rfl⟩
  | finish => exact ⟨hn, fun s hs => by cases hs; rfl, rfl⟩
  | @abandonStart a =>
    obtain ⟨tally, heq⟩ := m.forsakeHook_eq a
    rw [heq]
    exact h.idle rfl rfl rfl
  | abandonWait => exact h.idle rfl rfl rfl
  | @abandonFinish a =>
    obtain ⟨tally, heq⟩ := m.forsakeHook_eq a
    rw [heq]
    exact h.idle rfl rfl rfl
  | producer hstep => exact h.producer hstep
  | worker _ hstep => exact h.same (.of_worker hstep)
  | drop _ _ hstep => exact h.same (.of_drop hstep)
  | cancel => exact h.goOn rfl rfl rfl rfl rfl id
  | world world =>
    rw [Move.call?_of_isWorld world]
    exact h.goOn rfl rfl rfl rfl rfl id

/-- A bundle leaves the stage it has come to only when its finish is called. The stage `created` is
excepted: a start leaves it by its last step, unless its hook has panicked. -/
theorem stage_after (h : m.Orderly current) {move : Move α} (ht : Transition m move m')
    (hs : m.stage ≠ .created) :
    m'.stage = m.stage ∨ move = .call .finish ∧ m'.stage = .finished := by
  cases ht with
  | violation | submit | abandonWait | cancel | world => exact Or.inl rfl
  | start _ stage => exact absurd stage hs
  | finish => exact Or.inr ⟨rfl, rfl⟩
  | @abandonStart a | @abandonFinish a =>
    obtain ⟨tally, heq⟩ := m.forsakeHook_eq a
    rw [heq]
    exact Or.inl rfl
  | producer step =>
    cases callStep_of_producer step with
    | goesOn _ phase => exact Or.inl (phase rfl).2
    | ends _ _ stage =>
      rcases stage with hstage | ⟨a, hp⟩
      · exact Or.inl hstage
      · exact absurd (h.stage .created (by rw [hp]; rfl)) hs
  | worker _ step => exact Or.inl (SameCall.of_worker step).stage
  | drop _ _ step => exact Or.inl (SameCall.of_drop step).stage

theorem created_before (h : m.Orderly current) {move : Move α} (ht : Transition m move m')
    (hs' : m'.stage = .created) : m.stage = .created := by
  by_contra hs
  rcases h.stage_after ht hs with hsame | ⟨-, hfinished⟩
  · exact hs (hsame ▸ hs')
  · rw [hs'] at hfinished
    cases hfinished

theorem started_after (h : m.Orderly current) {move : Move α} (ht : Transition m move m')
    (hs : m.stage = .started) (hopen : move ≠ .call .finish) : m'.stage = .started := by
  rcases h.stage_after ht (by rw [hs]; nofun) with hsame | ⟨hmove, -⟩
  · rw [hsame, hs]
  · exact absurd hmove hopen

theorem finished_after (h : m.Orderly current) {move : Move α} (ht : Transition m move m')
    (hs : m.stage = .finished) : m'.stage = .finished := by
  rcases h.stage_after ht (by rw [hs]; nofun) with hsame | ⟨-, hfinished⟩
  · rw [hsame, hs]
  · exact hfinished

end Orderly

end Machine

end WorkBundle
