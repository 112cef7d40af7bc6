import WorkBundle.Proofs.Barrier
import WorkBundle.Proofs.Counts

/-!
# Who holds the tickets

What is not free at the gate is accounted for, ticket by ticket: by the workers that were accepted
and have not given theirs back, by the submission in progress, and by the drain in progress. So
no more elements than the capacity of the gate are ever in progress at once, and a call that is
over, in whatever way, has left nothing behind.

While the backend has the task of an item in its hands and has not answered, the item is not
accepted yet, and its ticket still counts for the submission.
-/

set_option autoImplicit false

namespace WorkBundle

variable {α : Type}

namespace Machine

/-- How many of the workers belong to items that the backend has answered for. An item that is
`polling` or `dropping` is still the submission's: it may yet be refused. -/
def answeredFor (m : Machine α) : Nat :=
  match m.producer with
  | .polling n | .dropping n => n
  | _ => m.workers.length

/-- The tickets of the items that the backend has `answeredFor`. -/
def acceptedTickets (m : Machine α) : Nat := inFlight (m.workers.take m.answeredFor)

/-- The tickets of the submission in progress: what it has gathered, what it holds, or what is
in the hands of the backend for it. -/
def submissionTickets (m : Machine α) : Nat :=
  match m.producer with
  | .admitting _ => m.gate.permits.gathered ()
  | .checking _ | .handing _ => 1
  | .polling _ | .dropping _ => inFlight (m.workers.drop m.answeredFor)
  | _ => 0

/-- The tickets of the drain in progress: what it has gathered, or all of them. -/
def drainTickets (m : Machine α) : Nat :=
  match m.producer with
  | .draining => m.gate.permits.gathered ()
  | .drained | .finishing _ => m.gate.capacity.count
  | _ => 0

/-! ## The balance, in the words of the holders -/

variable {m m' : Machine α}

theorem inFlight_split (m : Machine α) :
    inFlight m.workers = m.acceptedTickets + inFlight (m.workers.drop m.answeredFor) := by
  rw [acceptedTickets, inFlight, inFlight, inFlight, ← List.countP_append, List.take_append_drop]

theorem acceptedTickets_of_answered (h : m.answeredFor = m.workers.length) :
    m.acceptedTickets = inFlight m.workers := by
  rw [acceptedTickets, h, List.take_length]

theorem TicketsOk.outstanding_eq (h : m.TicketsOk) :
    m.gate.outstanding = m.acceptedTickets + m.submissionTickets + m.drainTickets := by
  have heq := Gate.Balanced.outstanding_eq h
  rw [← Gate.gathered_eq] at heq
  have hsplit := m.inFlight_split
  have hnobody (hasks : m.producer.request? = none) : m.gate.permits.gathered () = 0 := by
    unfold TicketsOk at h
    rw [hasks] at h
    obtain ⟨hwaiting, hgranted⟩ := h.nobody
    rw [Gate.gathered_eq, hwaiting, hgranted]
    rfl
  rw [heq]
  cases hp : m.producer with
  | admitting item | draining =>
    rw [acceptedTickets_of_answered (by rw [answeredFor, hp])]
    simp only [submissionTickets, drainTickets, Phase.tickets, hp]
    omega
  | polling n | dropping n =>
    rw [hnobody (by rw [hp]; rfl), hsplit]
    simp only [submissionTickets, drainTickets, Phase.tickets, hp]
    omega
  | _ =>
    rw [hnobody (by rw [hp]; rfl), acceptedTickets_of_answered (by rw [answeredFor, hp])]
    simp only [submissionTickets, drainTickets, Phase.tickets, hp]
    omega

theorem TicketsOk.submissionTickets_le (h : m.TicketsOk) {current : Option (Call α)}
    (hord : m.Orderly current) : m.submissionTickets ≤ 1 := by
  have hserves := hord.serves
  unfold TicketsOk at h
  cases hp : m.producer with
  | admitting item =>
    rw [hp] at h
    simp only [submissionTickets, hp]
    exact h.line.gathered_le
  | polling n | dropping n =>
    rw [hp] at hserves
    obtain ⟨earlier, item, hitems, hlength, -⟩ := hserves
    have hworkers : m.workers.length = n + 1 := by
      have hcount := congrArg List.length hitems
      simp only [items, List.length_map, List.length_append, List.length_singleton] at hcount
      omega
    have hlast : (m.workers.drop n).length = 1 := by rw [List.length_drop]; omega
    simp only [submissionTickets, answeredFor, hp]
    rw [← hlast]
    exact List.countP_le_length
  | _ =>
    simp only [submissionTickets, hp]
    omega

/-! ## Which tickets were accepted

Every item gets its ticket along when it is handed over, also one that the backend will refuse or
discard. Such a ticket is back before the submission has its answer. -/

/-- The ticket of an item that the backend does not keep is in the hands of the backend, inside the
submission. Hence `acceptedTickets` counts only tasks that the backend runs. -/
def KeepsAccepted (m : Machine α) : Prop :=
  ∀ n, (holders m.workers)[n]? = some true → m.verdict n ≠ .run →
    m.producer = .polling n ∨ m.producer = .dropping n

theorem KeepsAccepted.new (setup : Setup α) (scope : Scope) :
    (Machine.new setup scope).KeepsAccepted := by
  intro n hn
  cases hn

theorem lent_step {move : Move α} {n : Nat} (h : Transition m move m')
    (hp : m.producer = .polling n ∨ m.producer = .dropping n) (hv : m.verdict n ≠ .run) :
    m'.producer = .polling n ∨ m'.producer = .dropping n ∨
      ∃ w e, m.workers[n]? = some w ∧ w.phase = .closing e := by
  have hbusy : m.producer ≠ .idle ∧ m.abandon = none := by
    rcases hp with hp | hp
    all_goals
      simp only [abandon, hp]
      refine ⟨fun hidle => ?_, trivial⟩
      cases hidle
  rcases same_or_producerStep h hbusy.1 hbusy.2 with hsame | hstep
  · rw [hsame.producer]
    exact hp.imp_right Or.inl
  · cases hstep with
    | keep phase _ verdict =>
      rcases hp with hp | hp
      all_goals
        rw [hp] at phase
        cases phase
      exact absurd verdict hv
    | @dropPolled k _ a phase =>
      rcases hp with hp | hp
      all_goals
        rw [hp] at phase
        cases phase
      exact Or.inr (Or.inl (SameCall.lose { m with producer := .dropping n } n a).producer)
    | dropQueued => exact hp.imp_right Or.inl
    | @answer k w e phase worker closing =>
      obtain rfl : k = n := by
        rcases hp with hp | hp
        all_goals
          rw [hp] at phase
          rcases phase with phase | ⟨phase, -⟩ <;> cases phase
          rfl
      exact Or.inr (Or.inr ⟨w, e, worker, closing⟩)
    | _ =>
      rename m.producer = _ => phase
      rcases hp with hp | hp
      all_goals
        rw [hp] at phase
        cases phase

theorem KeepsAccepted.step (h : m.KeepsAccepted) (hnum : m.dispatched = m.workers.length)
    {move : Move α} (ht : Transition m move m') : m'.KeepsAccepted := by
  intro n hn hv
  have hv₀ : m.verdict n ≠ .run := by
    unfold verdict at hv ⊢
    rwa [(cellStep ht).2.setup] at hv
  rcases (ticketStep ht).holder n with hold | ⟨⟨item, hp⟩, hnew, -⟩ | ⟨-, -, -, hback⟩
  · rw [hold] at hn
    rcases lent_step ht (h n hn hv₀) hv₀ with hp | hp | ⟨w, e, hw, hclosing⟩
    · exact Or.inl hp
    · exact Or.inr hp
    -- Its worker has no ticket any more.
    · rw [holders, marks_getElem? _ hw, hclosing] at hn
      cases hn
  -- A new worker: its item has just been handed over, and the backend has not answered yet.
  · rcases handing_step ht hp with hsame | rfl
    · have hlength := congrArg List.length hsame.items
      obtain ⟨hlt, -⟩ := List.getElem?_eq_some_iff.mp hn
      have hout := List.getElem?_eq_none_iff.mp hnew
      simp only [items, List.length_map, holders, length_marks] at hlength hlt hout
      omega
    · have hlast : n = m.dispatched := by
        have hout := List.getElem?_eq_none_iff.mp hnew
        obtain ⟨hlt, -⟩ := List.getElem?_eq_some_iff.mp hn
        simp only [holders, length_marks, length_hand] at hlt hout
        omega
      subst hlast
      rcases m.hand_cases item with ⟨-, heq⟩ | ⟨hrun, -⟩ | ⟨-, -, heq⟩
      · exact Or.inl (by rw [heq])
      · exact absurd hrun hv₀
      · exact Or.inr (by rw [heq])
  · rw [hback] at hn
    cases hn

/-- Is this the step by which the worker gives its ticket back? It is told by `holdsTicket` before
and after. -/
def returnsTicket (n : Nat) (m m' : Machine α) : Bool :=
  (holders m.workers)[n]? == some true && (holders m'.workers)[n]? == some false

/-- How often a worker gives a ticket back in a run: `returnsTicket` is counted over all its steps,
since that there is one return and not two is a statement about the whole run. -/
def ticketReturns (m : Machine α) (moves : List (Move α)) (n : Nat) : Nat :=
  m.countSteps (returnsTicket n) moves

section

variable {setup : Setup α} {scope : Scope} {moves : List (Move α)}

theorem ticketReturns_run (hrun : (Machine.new setup scope).run moves = some m) (n : Nat) :
    (Machine.new setup scope).ticketReturns moves n =
      ((holders m.workers)[n]? == some false).toNat := by
  refine run_induction (Q := fun moves m => (Machine.new setup scope).ticketReturns moves n =
    ((holders m.workers)[n]? == some false).toNat) rfl ?_ hrun
  intro moves m m' move hrun ih hstep
  rw [ticketReturns, countSteps_concat hrun hstep, ← ticketReturns, ih, returnsTicket]
  rcases (ticketStep (transition_of_step hstep)).holder n with
    hold | ⟨-, hnew, hnext⟩ | ⟨-, -, hheld, hback⟩
  · rw [hold]
    cases (holders m.workers)[n]? with
    | none => rfl
    | some b => cases b <;> rfl
  · rw [hnew, hnext]
    rfl
  · rw [hheld, hback]
    rfl

theorem keepsAccepted_run (hrun : (Machine.new setup scope).run moves = some m) :
    m.KeepsAccepted := by
  refine run_induction (Q := fun _ m => m.KeepsAccepted) (.new setup scope) ?_ hrun
  intro moves m m' move hrun h hstep
  exact h.step (drains hrun).orderly.numbered (transition_of_step hstep)

theorem capacity_run (hrun : (Machine.new setup scope).run moves = some m) :
    m.gate.capacity = setup.parallelism :=
  run_invariant (I := fun m => m.gate.capacity = setup.parallelism)
    (fun h ht => (ticketStep ht).capacity_eq.trans h) rfl hrun

theorem atWork_le_inFlight (ws : List (Worker α)) : (atWork ws).countP id ≤ inFlight ws := by
  rw [atWork, marks, List.countP_map]
  refine List.countP_mono_left fun w _ hw => ?_
  cases hp : w.phase with
  | working a => rfl
  | _ =>
    simp only [Function.comp, hp] at hw
    cases hw

theorem maxActive_le (hrun : (Machine.new setup scope).run moves = some m) :
    m.tally.bodies.maxActive ≤ setup.parallelism.count := by
  refine run_induction (Q := fun _ m => m.tally.bodies.maxActive ≤ setup.parallelism.count)
    (Nat.zero_le _) ?_ hrun
  intro moves m m' move hrun ih hstep
  have hrun' := run_trans hrun ((run_singleton m move).trans hstep)
  have hbalance := (drains hrun').tickets.balance
  have hactive := ((Counted.new setup scope).run hrun').active
  have hwork := atWork_le_inFlight m'.workers
  have hmost := maxActive_step (transition_of_step hstep)
  rw [capacity_run hrun'] at hbalance
  omega

/-- Every ticket is accounted for. What is not free is held by the accepted items that have not
given theirs back, by the submission in progress, which has one at most, and by the drain in
progress; nothing is left behind by a call that is over, in whatever way. So no more elements
than the capacity are ever in progress. Each item gives its ticket back once, however it ends, and
every step moves tickets in one of the ways that `TicketStep` lists. -/
theorem tickets_accounted_for (hrun : (Machine.new setup scope).run moves = some m) :
    m.gate.outstanding = m.acceptedTickets + m.submissionTickets + m.drainTickets ∧
    m.submissionTickets ≤ 1 ∧
    (∀ n < m.answeredFor, (holders m.workers)[n]? = some true → m.verdict n = .run) ∧
    m.gate.permits.free + m.gate.outstanding = setup.parallelism.count ∧
    (m.producer = .idle → m.gate.outstanding = inFlight m.workers) ∧
    m.tally.bodies.active = (atWork m.workers).countP id ∧
    (atWork m.workers).countP id ≤ setup.parallelism.count ∧
    m.tally.bodies.maxActive ≤ setup.parallelism.count ∧
    (∀ n, (Machine.new setup scope).ticketReturns moves n =
      ((holders m.workers)[n]? == some false).toNat) ∧
    ∀ move m', m.step move = some m' → TicketStep m m' move := by
  have hd := drains hrun
  have houtstanding := hd.tickets.outstanding_eq
  have hbalance := hd.tickets.balance
  have hcap := capacity_run hrun
  have hwork := atWork_le_inFlight m.workers
  rw [hcap] at hbalance
  refine ⟨houtstanding, hd.tickets.submissionTickets_le hd.orderly, ?_, ?_, ?_,
    ((Counted.new setup scope).run hrun).active, by omega, maxActive_le hrun,
    ticketReturns_run hrun, fun move m' hstep => ticketStep (transition_of_step hstep)⟩
  · intro n hn hheld
    by_contra hv
    rcases keepsAccepted_run hrun n hheld hv with hp | hp
    all_goals
      simp only [answeredFor, hp] at hn
      exact Nat.lt_irrefl n hn
  · have hfree : m.gate.permits.free ≤ m.gate.permits.total := by
      unfold Permits.total
      omega
    rw [Gate.outstanding, hcap]
    omega
  · intro hidle
    rw [houtstanding, acceptedTickets_of_answered (by rw [answeredFor, hidle])]
    simp only [submissionTickets, drainTickets, hidle]
    omega

end

/-- In the middle of the work on its one element, a bundle has its one ticket out. -/
theorem tickets_accounted_for_solo :
    ∃ m, (Machine.new soloSetup).run (soloMoves.take 8) = some m ∧
      m.gate.outstanding = 1 ∧ m.tally.bodies.active = 1 ∧
      m.gate.outstanding = m.acceptedTickets + m.submissionTickets + m.drainTickets ∧
      m.gate.permits.free + m.gate.outstanding = 1 := by
  have hout : ((Machine.new soloSetup).run (soloMoves.take 8)).map
      (fun m => (m.gate.outstanding, m.tally.bodies.active)) = some (1, 1) := by decide +kernel
  obtain ⟨m, hrun, hm⟩ := Option.map_eq_some_iff.mp hout
  obtain ⟨heq, -, -, hfree, -⟩ := tickets_accounted_for hrun
  exact ⟨m, hrun, congrArg Prod.fst hm, congrArg Prod.snd hm, heq, hfree⟩

end Machine

end WorkBundle
