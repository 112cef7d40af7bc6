import WorkBundle.Proofs.Calls

/-!
# Where the tickets of an engine are

Every ticket of the gate is free, gathered by the one call that waits, held by a worker, or held
by the producer: by a submission between its admission and the hand-over, or by a drain from its
end to the end of the finish hook. `TicketStep` lists what one step can do to them, with who gets
or gives back how many, and `ticketStep` reads it off every transition.

`TicketsOk` says that the tickets of all holders add up to the capacity. Every step keeps it, so a
drain that has all tickets proves that no worker has one.
-/

set_option autoImplicit false

namespace WorkBundle

variable {α : Type}

def Phase.request? : Phase α → Option GateRequest
  | .admitting _ => some .ticket
  | .draining => some .everything
  | _ => none

/-- The tickets that the call in progress holds. While it still asks (`request?`) it holds none,
because what it has gathered so far is counted by the gate as `gathered`. -/
def Phase.tickets (capacity : Nat) : Phase α → Nat
  | .checking _ | .handing _ => 1
  | .drained | .finishing _ => capacity
  | _ => 0

theorem Phase.tickets_of_request {p : Phase α} {r : GateRequest} (h : p.request? = some r)
    (capacity : Nat) : p.tickets capacity = 0 := by
  cases p <;> first | rfl | cases h

namespace Machine

/-! ## What a step does to the tickets -/

def holders (ws : List (Worker α)) : List Bool := marks WorkerPhase.holdsTicket ws

theorem inFlight_eq_count (ws : List (Worker α)) : inFlight ws = (holders ws).countP id := by
  rw [holders, marks, List.countP_map]
  rfl

theorem inFlight_congr {ws ws' : List (Worker α)} (h : holders ws' = holders ws) :
    inFlight ws' = inFlight ws := by
  rw [inFlight_eq_count, inFlight_eq_count, h]

/-- How the tickets of an engine move in one step. All results on tickets split on these cases,
which are the places of the code that touch the gate: a call `waits`, is `granted` its tickets or
has `givenUp`, a submission has `handed` its ticket on, and a call or a worker gives its own back.
-/
inductive TicketStep (m m' : Machine α) (move : Move α) : Prop
  | still (gate : m'.gate = m.gate) (holders : holders m'.workers = holders m.workers)
      (asks : ∀ r, m.producer.request? = some r → m'.producer.request? = some r)
      (holds : ∀ c, m'.producer.tickets c = m.producer.tickets c)
  | cancelled (own : move = .cancel) (gate : m'.gate = m.gate.cancel)
      (workers : m'.workers = m.workers) (producer : m'.producer = m.producer)
  /-- A call stands in the line, and goes on waiting. -/
  | waits {r : GateRequest} (asks : m.producer.request? = some r)
      (ask : m.gate.ask () r = (m'.gate, none)) (workers : m'.workers = m.workers)
      (producer : m'.producer = m.producer)
  | granted {r : GateRequest} (asks : m.producer.request? = some r)
      (ask : m.gate.ask () r = (m'.gate, some (.ok ()))) (workers : m'.workers = m.workers)
      (holds : ∀ c, m'.producer.tickets c = r.need c) (asked : m'.producer.request? = none)
  /-- A call that waits fails or is given up: what it has gathered goes back. -/
  | givenUp {r : GateRequest} (asks : m.producer.request? = some r)
      (gate : m'.gate = m.gate.leave ()) (workers : m'.workers = m.workers)
      (idle : m'.producer = .idle)
  | handed {item : WorkItem α} (phase : m.producer = .handing item) (gate : m'.gate = m.gate)
      (holders : holders m'.workers = holders m.workers ++ [true])
      (holds : ∀ c, m'.producer.tickets c = 0)
  /-- A call ends or is given up: what it holds goes back. -/
  | returned (asks : m.producer.request? = none)
      (gate : m'.gate = m.gate.release (m.producer.tickets m.gate.capacity.count))
      (workers : m'.workers = m.workers) (idle : m'.producer = .idle)
  | left {n : Nat} (own : move = .worker n) (held : (holders m.workers)[n]? = some true)
      (gate : m'.gate = m.gate.release 1)
      (holders : holders m'.workers = (holders m.workers).set n false)
      (producer : m'.producer = m.producer)

theorem ticketStep_of_worker {m m' : Machine α} {n : Nat} {w : Worker α}
    (hw : m.workers[n]? = some w) (h : WorkerStep m n w m') : TicketStep m m' (.worker n) := by
  have hkeep {m₁ : Machine α} {p q : WorkerPhase α} (phase : w.phase = q)
      (hworkers : m₁.workers = (m.setPhase n p).workers) (hp : p.holdsTicket = q.holdsTicket)
      (hgate : m₁.gate = m.gate) (hproducer : m₁.producer = m.producer) :
      TicketStep m m₁ (.worker n) := by
    refine .still hgate ?_ (fun r hr => hproducer ▸ hr) fun c => by rw [hproducer]
    rw [hworkers]
    exact marks_keep _ hw (by rw [hp, phase])
  cases h with
  | begin phase => exact hkeep phase rfl rfl rfl rfl
  | goOn phase _ hact =>
    obtain ⟨_, _, _, _, _, _, rfl⟩ := act_eq hact
    exact hkeep phase rfl rfl rfl rfl
  | @finish a outcome _ phase _ hact =>
    obtain ⟨_, _, _, _, _, _, rfl⟩ := act_eq hact
    cases outcome <;> exact hkeep phase rfl rfl rfl rfl
  | @offer f e phase =>
    rcases m.offer_cases n f e with ⟨-, heq⟩ | ⟨_, -, heq⟩
    all_goals
      rw [heq]
      exact hkeep phase rfl rfl rfl rfl
  | count phase => exact hkeep phase rfl rfl rfl rfl
  | leave phase =>
    refine .left rfl ?_ rfl (marks_setPhase _ hw _) rfl
    rw [holders, marks_getElem? _ hw, phase]
    rfl
  | @close e phase =>
    obtain ⟨tally, log, heq⟩ := m.close_eq n e
    rw [heq]
    exact hkeep phase rfl rfl rfl rfl

theorem holders_lose {m : Machine α} {n : Nat} {w : Worker α} (hw : m.workers[n]? = some w)
    {a : Activity α} (phase : w.phase = .working a) :
    holders (m.lose n a).workers = holders m.workers ∧ (m.lose n a).gate = m.gate := by
  obtain ⟨lock, supply, tally, heq⟩ := m.lose_eq n a
  rw [heq]
  exact ⟨marks_keep _ hw (by rw [phase]; rfl), rfl⟩

theorem ticketStep_of_producer {m m' : Machine α} (h : ProducerStep m m') :
    TicketStep m m' .producer := by
  -- A call that neither asks nor gives back goes on in a phase with as many tickets.
  have hon {m₁ : Machine α} {p : Phase α} (phase : m.producer = p) (hgate : m₁.gate = m.gate)
      (hworkers : holders m₁.workers = holders m.workers) (hasks : p.request? = none)
      (hholds : ∀ c, m₁.producer.tickets c = p.tickets c) : TicketStep m m₁ .producer := by
    subst phase
    refine .still hgate hworkers (fun r hr => ?_) hholds
    rw [hasks] at hr
    cases hr
  have hback {m₁ : Machine α} {p : Phase α} {k : Nat} (phase : m.producer = p)
      (hasks : p.request? = none) (hheld : p.tickets m.gate.capacity.count = k)
      (hgate : m₁.gate = m.gate.release k) (hworkers : m₁.workers = m.workers)
      (hidle : m₁.producer = .idle) : TicketStep m m₁ .producer := by
    subst phase hheld
    exact .returned hasks hgate hworkers hidle
  cases h with
  | startOn phase hact | finishOn phase hact =>
    obtain ⟨_, _, _, _, _, _, rfl⟩ := act_eq hact
    exact hon phase rfl rfl rfl fun _ => rfl
  | @startEnd a outcome _ phase hact =>
    obtain ⟨_, _, _, _, _, _, rfl⟩ := act_eq hact
    cases outcome <;> exact hon phase rfl rfl rfl fun _ => rfl
  | @ask item phase =>
    have hr : m.producer.request? = some .ticket := by rw [phase]; rfl
    unfold askTicket askGate
    cases hask : m.gate.ask () .ticket with
    | mk g answer =>
      match answer with
      | none => exact .waits hr hask rfl rfl
      | some (.ok ()) => exact .granted hr hask rfl (fun _ => rfl) rfl
      | some (.error e) => exact .givenUp hr (Gate.ask_error hask).2.1 rfl rfl
  | check phase =>
    unfold check
    split
    · exact hback phase rfl rfl rfl rfl rfl
    · exact hon phase rfl rfl rfl fun _ => rfl
  | @hand item phase =>
    have hnew : holders (m.enlist item).workers = holders m.workers ++ [true] := marks_concat _ _ _
    rcases m.hand_cases item with ⟨-, heq⟩ | ⟨-, heq⟩ | ⟨-, -, heq⟩
    all_goals
      rw [heq]
      exact .handed phase rfl hnew fun _ => rfl
  | keep phase => exact hon phase rfl rfl rfl fun _ => rfl
  | @dropPolled n w a phase worker _ working =>
    obtain ⟨hholders, hgate⟩ :=
      holders_lose (m := { m with producer := .dropping n }) worker working
    have hproducer := (SameCall.lose { m with producer := .dropping n } n a).producer
    exact hon phase hgate hholders rfl fun c => by rw [hproducer]; rfl
  | dropQueued phase worker queued =>
    exact hon phase rfl (marks_keep _ worker (by rw [queued]; rfl)) rfl fun c => by
      show m.producer.tickets c = _
      rw [phase]
  -- The worker has given its ticket back already; the answer moves none.
  | @answer n w e phase worker closing =>
    have hholders : holders (m.setPhase n (.ended e)).workers = holders m.workers :=
      marks_keep _ worker (by rw [closing]; rfl)
    obtain ⟨p, hp, hasks, hheld⟩ : ∃ p, m.producer = p ∧ p.request? = none ∧
        ∀ c, p.tickets c = 0 := by
      rcases phase with hp | ⟨hp, -⟩
      all_goals exact ⟨_, hp, rfl, fun _ => rfl⟩
    rcases (m.setPhase n (.ended e)).verdictOf_cases n with ⟨-, heq⟩ | ⟨-, heq⟩
    all_goals
      rw [heq]
      exact hon hp rfl hholders hasks fun c => (hheld c).symm
  | refusalCaptured phase | refusalLate phase | refusalCounted phase =>
    exact hon phase rfl rfl rfl fun _ => rfl
  | drain phase =>
    have hr : m.producer.request? = some .everything := by rw [phase]; rfl
    unfold askEverything askGate
    cases hask : m.gate.ask () .everything with
    | mk g answer =>
      match answer with
      | none => exact .waits hr hask rfl rfl
      | some (.ok ()) => exact .granted hr hask rfl (fun _ => rfl) rfl
      | some (.error e) => exact .givenUp hr (Gate.ask_error hask).2.1 rfl rfl
  | conclude phase =>
    unfold conclude
    split
    · exact hback phase rfl rfl rfl rfl rfl
    · exact hon phase rfl rfl rfl fun _ => rfl
  | @finishEnd a outcome _ phase hact =>
    obtain ⟨_, _, _, _, _, _, rfl⟩ := act_eq hact
    cases outcome <;> exact hback phase rfl rfl rfl rfl rfl

theorem ticketStep {m m' : Machine α} {move : Move α} (h : Transition m move m') :
    TicketStep m m' move := by
  have hcall {m₁ : Machine α} (idle : m.producer = .idle) (hgate : m₁.gate = m.gate)
      (hworkers : m₁.workers = m.workers) (hholds : ∀ c, m₁.producer.tickets c = 0) :
      TicketStep m m₁ move := by
    refine .still hgate (by rw [hworkers]) (fun r hr => ?_) fun c => ?_
    · rw [idle] at hr
      cases hr
    · rw [hholds, idle]
      rfl
  cases h with
  | violation idle | start idle | submit idle | finish idle =>
    exact hcall idle rfl rfl fun _ => rfl
  | @abandonStart a phase =>
    obtain ⟨tally, heq⟩ := m.forsakeHook_eq a
    rw [heq]
    refine .still rfl rfl (fun r hr => ?_) fun c => by rw [phase]; rfl
    rw [phase] at hr
    cases hr
  | abandonWait phase =>
    obtain ⟨r, hr⟩ : ∃ r, m.producer.request? = some r := by
      rcases phase with ⟨item, hp⟩ | hp
      all_goals
        rw [hp]
        exact ⟨_, rfl⟩
    exact .givenUp hr rfl rfl rfl
  | @abandonFinish a phase =>
    obtain ⟨tally, heq⟩ := m.forsakeHook_eq a
    rw [heq]
    refine .returned ?_ ?_ rfl rfl
    all_goals
      rw [phase]
      rfl
  | producer hstep => exact ticketStep_of_producer hstep
  | worker hw hstep => exact ticketStep_of_worker hw hstep
  | @drop n _ _ hw _ hstep =>
    cases hstep with
    | queued phase =>
      exact .still rfl (marks_keep _ hw (by rw [phase]; rfl)) (fun _ hr => hr) fun _ => rfl
    | @working a phase =>
      obtain ⟨hholders, hgate⟩ := holders_lose hw phase
      have hproducer := (SameCall.lose m n a).producer
      exact .still hgate hholders (fun r hr => hproducer ▸ hr) fun c => by rw [hproducer]
  | cancel => exact .cancelled rfl rfl rfl rfl
  | world => exact .still rfl rfl (fun _ hr => hr) fun _ => rfl

theorem inFlight_of_left {ws ws' : List (Worker α)} {n : Nat} (held : (holders ws)[n]? = some true)
    (hholders : holders ws' = (holders ws).set n false) : inFlight ws = inFlight ws' + 1 := by
  obtain ⟨hlt, hget⟩ := List.getElem?_eq_some_iff.mp held
  have hpos : 0 < (holders ws).countP id :=
    List.countP_pos_iff.mpr ⟨true, hget ▸ List.getElem_mem hlt, rfl⟩
  rw [inFlight_eq_count, inFlight_eq_count ws', hholders, List.countP_set hlt, hget]
  simp only [id, if_true, Bool.false_eq_true, if_false]
  omega

theorem inFlight_of_handed {ws ws' : List (Worker α)} (h : holders ws' = holders ws ++ [true]) :
    inFlight ws' = inFlight ws + 1 := by
  rw [inFlight_eq_count, h, List.countP_append, inFlight_eq_count]
  rfl

/-- A worker comes with a ticket, and gives it back once, by a step of its own. No call can take it
back from it, so a worker `holdsTicket` until its guard has recorded how it ended. -/
theorem TicketStep.holder {m m' : Machine α} {move : Move α} (h : TicketStep m m' move) (n : Nat) :
    (holders m'.workers)[n]? = (holders m.workers)[n]? ∨
    ((∃ item, m.producer = .handing item) ∧ (holders m.workers)[n]? = none ∧
      (holders m'.workers)[n]? = some true) ∨
    (move = .worker n ∧ m'.gate = m.gate.release 1 ∧ (holders m.workers)[n]? = some true ∧
      (holders m'.workers)[n]? = some false) := by
  cases h with
  | still _ hholders => exact Or.inl (by rw [hholders])
  | cancelled _ _ workers | waits _ _ workers | granted _ _ workers | givenUp _ _ workers
  | returned _ _ workers => exact Or.inl (by rw [workers])
  | @handed item phase _ hholders =>
    rw [hholders]
    rcases Nat.lt_trichotomy n (holders m.workers).length with hn | rfl | hn
    · exact Or.inl (List.getElem?_append_left hn)
    · exact Or.inr (Or.inl ⟨⟨item, phase⟩, by simp, by simp⟩)
    · refine Or.inl ?_
      rw [List.getElem?_eq_none (Nat.le_of_lt hn), List.getElem?_eq_none]
      rw [List.length_append, List.length_singleton]
      exact hn
  | @left k own held gate hholders =>
    rw [hholders]
    by_cases hn : n = k
    · subst hn
      obtain ⟨hlt, -⟩ := List.getElem?_eq_some_iff.mp held
      exact Or.inr (Or.inr ⟨own, gate, held, List.getElem?_set_self hlt⟩)
    · exact Or.inl (List.getElem?_set_ne (Ne.symm hn))

theorem TicketStep.inFlight_of_back {m m' : Machine α} {move : Move α} (h : TicketStep m m' move)
    {n : Nat} (hheld : (holders m.workers)[n]? = some true)
    (hback : (holders m'.workers)[n]? = some false) :
    inFlight m.workers = inFlight m'.workers + 1 ∧ m'.producer = m.producer := by
  cases h with
  | left _ held _ hholders producer => exact ⟨inFlight_of_left held hholders, producer⟩
  | still _ hholders =>
    rw [hholders, hheld] at hback
    cases hback
  | cancelled _ _ workers | waits _ _ workers | granted _ _ workers | givenUp _ _ workers
  | returned _ _ workers =>
    rw [workers, hheld] at hback
    cases hback
  | handed _ _ hholders =>
    obtain ⟨hlt, -⟩ := List.getElem?_eq_some_iff.mp hheld
    rw [hholders, List.getElem?_append_left hlt, hheld] at hback
    cases hback

theorem TicketStep.capacity_eq {m m' : Machine α} {move : Move α} (h : TicketStep m m' move) :
    m'.gate.capacity = m.gate.capacity := by
  cases h with
  | waits _ ask | granted _ ask => exact (Gate.ask_frame ask).1
  | still gate | handed _ gate => rw [gate]
  | cancelled _ gate | givenUp _ gate | returned _ gate | left _ _ gate =>
    rw [gate]
    rfl

theorem TicketStep.cancelled_eq {m m' : Machine α} {move : Move α} (h : TicketStep m m' move)
    (hmove : move ≠ .cancel) : m'.gate.cancelled = m.gate.cancelled := by
  cases h with
  | cancelled own => exact absurd own hmove
  | waits _ ask | granted _ ask => exact (Gate.ask_frame ask).2
  | still gate | handed _ gate => rw [gate]
  | givenUp _ gate | returned _ gate | left _ _ gate =>
    rw [gate]
    rfl

/-! ## The balance -/

/-- The tickets of workers and of the producer are what the gate has given away; with
`Gate.Balanced` they are then capacity less what is free or gathered. -/
def TicketsOk (m : Machine α) : Prop :=
  m.gate.Balanced (fun _ => m.producer.request?)
    (inFlight m.workers + m.producer.tickets m.gate.capacity.count)

namespace TicketsOk

variable {m m' : Machine α}

theorem new (setup : Setup α) (scope : Scope) : (Machine.new setup scope).TicketsOk :=
  Gate.Balanced.new _ _

theorem of_balanced {asks : Unit → Option GateRequest} {held : Nat} (h : m.gate.Balanced asks held)
    (hasks : ∀ u r, asks u = some r → m.producer.request? = some r)
    (hheld : held = inFlight m.workers + m.producer.tickets m.gate.capacity.count) :
    m.TicketsOk := by
  subst hheld
  exact h.mono hasks

theorem balanced (h : m.TicketsOk) {g : Gate Unit} {held : Nat} (hgate : g = m.gate)
    (hheld : held = inFlight m.workers + m.producer.tickets m.gate.capacity.count) :
    g.Balanced (fun _ => m.producer.request?) held := by
  subst hgate hheld
  exact h

theorem asking (h : m.TicketsOk) {r : GateRequest} (hr : m.producer.request? = some r) :
    m.gate.Balanced (fun _ => m.producer.request?) (inFlight m.workers) :=
  h.balanced rfl (by rw [Phase.tickets_of_request hr]; rfl)

/-- Every transition keeps `TicketsOk`; only the gate's own lemmas know how it serves its line. -/
theorem step (h : m.TicketsOk) {move : Move α} (ht : Transition m move m') : m'.TicketsOk := by
  have hticket := ticketStep ht
  have hcap := hticket.capacity_eq
  have hnone {held : Nat} {asks : Unit → Option GateRequest} (hb : m'.gate.Balanced asks held)
      (hasks : ∀ u, asks u = none)
      (hheld : held = inFlight m'.workers + m'.producer.tickets m'.gate.capacity.count) :
      m'.TicketsOk :=
    of_balanced hb (fun u r hr => absurd (hasks u ▸ hr) nofun) hheld
  cases hticket with
  | still gate hholders asks holds =>
    refine of_balanced (h.balanced gate rfl) (fun _ => asks) ?_
    rw [inFlight_congr hholders, holds, hcap]
  | cancelled own gate workers producer =>
    refine of_balanced (gate ▸ Gate.Balanced.cancel h) (fun _ r hr => producer ▸ hr) ?_
    rw [workers, producer, hcap]
  | waits asks ask workers producer =>
    refine of_balanced ((h.asking asks).ask_waits asks ask) (fun _ r hr => producer ▸ hr) ?_
    rw [workers, producer, Phase.tickets_of_request asks]
    rfl
  | granted asks ask workers holds =>
    refine hnone ((h.asking asks).ask_granted asks ask) (fun _ => by simp) ?_
    rw [workers, holds, hcap]
  | givenUp asks gate workers idle =>
    refine hnone (gate ▸ (h.asking asks).leave ()) (fun _ => by simp) ?_
    rw [workers, idle]
    rfl
  | handed phase gate hholders holds =>
    have hone : m.producer.tickets m.gate.capacity.count = 1 ∧ m.producer.request? = none := by
      rw [phase]
      exact ⟨rfl, rfl⟩
    refine hnone (h.balanced gate rfl) (fun _ => hone.2) ?_
    rw [holds, inFlight_of_handed hholders, hone.1]
  | returned asks gate workers idle =>
    refine hnone (gate ▸ Gate.Balanced.release h) (fun _ => asks) ?_
    rw [workers, idle]
    rfl
  | left own held gate hholders producer =>
    have hcount := inFlight_of_left held hholders
    have hb : m.gate.Balanced (fun _ => m.producer.request?)
        (inFlight m'.workers + m.producer.tickets m.gate.capacity.count + 1) :=
      h.balanced rfl (by omega)
    refine of_balanced (gate ▸ hb.release) (fun _ r hr => producer ▸ hr) ?_
    rw [producer, hcap]

/-- A drain that has every ticket has waited for every worker. -/
theorem inFlight_zero (h : m.TicketsOk)
    (hphase : m.producer = .drained ∨ m.producer.isFinishing = true) :
    inFlight m.workers = 0 := by
  have hheld : m.producer.tickets m.gate.capacity.count = m.gate.capacity.count := by
    cases hp : m.producer <;> rw [hp] at hphase <;> first | rfl | simp [Phase.isFinishing] at hphase
  have hbal := h.balance
  rw [hheld] at hbal
  omega

end TicketsOk

end Machine

end WorkBundle
