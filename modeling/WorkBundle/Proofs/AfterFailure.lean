import WorkBundle.Proofs.Holdings

/-!
# After the first failure

Once a failure is captured, a bundle takes in no new work. A submission takes its ticket first and
reads the cell second, so two things have to be seen. What a submission that reads the captured
failure does: it gives its ticket back and answers with that failure, and nothing else changes.
And that it never waits for a worker to get that far: from the moment the failed item's ticket is
back, one ticket at least is neither with a worker nor on its way to one (`Spared`).

The one item that can still come through is that of a submission which had read the cell before the
capture and had not yet handed its item over.
-/

set_option autoImplicit false

namespace WorkBundle

variable {α : Type}

/-- Is the submission between its read of the cell and the hand-over? `Machine.check` and
`Machine.hand` are two steps, and a capture in between is what lets one more item through. -/
def Phase.isHanding : Phase α → Bool
  | .handing _ => true
  | _ => false

def Phase.hasRead : Phase α → Bool
  | .handing _ | .polling _ | .dropping _ | .refused _ | .outdone _ => true
  | _ => false

namespace Machine

variable {m m' : Machine α} {f : Failure} {item : WorkItem α}

/-! ## Reading the cell -/

/-- A submission is about to read the cell, and will find it empty. It is the only door to
`isHanding`, hence to new work. -/
def FindsEmpty (m : Machine α) : Prop :=
  (∃ item, m.producer = .checking item) ∧ m.cell.captured = none

/-- How a step moves the producer across its read of the cell: from before to after only if it
`FindsEmpty`, and never back to the hand-over. -/
inductive ReadStep (m m' : Machine α) : Prop
  | same (producer : m'.producer = m.producer)
  | before (phase : m'.producer.hasRead = false)
  | past (read : m.producer.hasRead = true) (phase : m'.producer.isHanding = false)
  | reads (empty : m.FindsEmpty) (cell : m'.cell = m.cell)

theorem isHanding_hand (m : Machine α) (item : WorkItem α) :
    (m.hand item).producer.isHanding = false := by
  rcases m.hand_cases item with ⟨-, heq⟩ | ⟨-, heq⟩ | ⟨-, -, heq⟩
  all_goals
    rw [heq]
    rfl

theorem readStep_of_producer (h : ProducerStep m m') : ReadStep m m' := by
  have hpast {m₁ : Machine α} {p : Phase α} (phase : m.producer = p) (hread : p.hasRead = true)
      (hnext : m₁.producer.isHanding = false) : ReadStep m m₁ := .past (phase ▸ hread) hnext
  cases h with
  | startOn _ hact | finishOn _ hact =>
    obtain ⟨_, _, _, _, _, _, rfl⟩ := act_eq hact
    exact .before rfl
  | @startEnd _ outcome _ _ hact | @finishEnd _ outcome _ _ hact =>
    obtain ⟨_, _, _, _, _, _, rfl⟩ := act_eq hact
    cases outcome <;> exact .before rfl
  | ask =>
    unfold askTicket askGate
    split
    · exact .same rfl
    all_goals exact .before rfl
  | @check item phase =>
    cases hc : m.cell.captured with
    | none =>
      simp only [check, hc]
      exact .reads ⟨⟨item, phase⟩, hc⟩ rfl
    | some f =>
      simp only [check, hc]
      exact .before rfl
  | @hand item phase => exact hpast phase rfl (m.isHanding_hand item)
  | keep | refusalCaptured | refusalCounted => exact .before rfl
  | @dropPolled n w a phase =>
    have hproducer := (SameCall.lose { m with producer := .dropping n } n a).producer
    exact hpast phase rfl (by rw [hproducer]; rfl)
  | dropQueued => exact .same rfl
  | @answer n w e phase =>
    have hread : m.producer.hasRead = true := by
      rcases phase with hp | ⟨hp, -⟩
      all_goals
        rw [hp]
        rfl
    rcases (m.setPhase n (.ended e)).verdictOf_cases n with ⟨-, heq⟩ | ⟨-, heq⟩
    all_goals
      rw [heq]
      exact .past hread rfl
  | refusalLate phase => exact hpast phase rfl rfl
  | drain =>
    unfold askEverything askGate
    split
    · exact .same rfl
    all_goals exact .before rfl
  | conclude =>
    unfold conclude
    split <;> exact .before rfl

theorem readStep {move : Move α} (h : Transition m move m') : ReadStep m m' := by
  cases h with
  | violation | start | submit | finish | abandonStart | abandonWait | abandonFinish =>
    exact .before rfl
  | producer hstep => exact readStep_of_producer hstep
  | worker _ hstep => exact .same (SameCall.of_worker hstep).producer
  | drop _ _ hstep => exact .same (SameCall.of_drop hstep).producer
  | cancel | world => exact .same rfl

theorem not_findsEmpty (hf : m.cell.captured = some f) : ¬ m.FindsEmpty := by
  rintro ⟨-, hempty⟩
  rw [hf] at hempty
  cases hempty

theorem hasRead_step {move : Move α} (h : Transition m move m') (hf : m.cell.captured = some f)
    (hread : m.producer.hasRead = false) : m'.producer.hasRead = false := by
  cases readStep h with
  | same producer => rw [producer, hread]
  | before phase => exact phase
  | past read => rw [hread] at read; cases read
  | reads empty => exact absurd empty (not_findsEmpty hf)

theorem isHanding_step {move : Move α} (h : Transition m move m')
    (hnext : m'.producer.isHanding = true) :
    m'.producer = m.producer ∨ m.FindsEmpty ∧ m'.cell = m.cell := by
  cases readStep h with
  | same producer => exact Or.inl producer
  | before phase =>
    cases hp : m'.producer <;> rw [hp] at hnext phase <;> cases hnext
    cases phase
  | past _ phase => rw [phase] at hnext; cases hnext
  | reads empty cell => exact Or.inr ⟨empty, cell⟩

theorem step_of_checking (hp : m.producer = .checking item) (hf : m.cell.captured = some f) :
    m.step .producer =
      some ({ m with gate := m.gate.release 1 }.reply (.error f.toError)) := by
  simp only [step, stepProducer, hp, check, hf]

/-- The submission has answered with the failure and given its ticket back; as a record update of
`m` it says that nothing else is different. -/
def FailsWith (m m' : Machine α) (f : Failure) : Prop :=
  m' = { m with
    gate := m'.gate, producer := .idle
    replies := m.replies ++ [.answer (.error f.toError)] } ∧
  m'.gate.outstanding = inFlight m.workers

theorem failsWith_of_checking (ht : m.TicketsOk) (hp : m.producer = .checking item)
    (hf : m.cell.captured = some f) : ∃ m', m.step .producer = some m' ∧ m.FailsWith m' f := by
  have hstep := step_of_checking hp hf
  refine ⟨_, hstep, rfl, ?_⟩
  have hafter := (ht.step (transition_of_step hstep)).outstanding_eq
  rw [hafter, acceptedTickets_of_answered rfl]
  rfl

/-! ## A ticket to spare -/

/-- The tickets that are with workers or on their way to one. While this stays below the capacity a
submission does not wait for its ticket, which is what `SpareFor` is to ensure. -/
def load (m : Machine α) : Nat := inFlight m.workers + m.producer.isHanding.toNat

/-- Once the ticket of this item is back, the `load` leaves one ticket at least. This is why no
submission waits after a failure was answered. -/
def SpareFor (m : Machine α) (n : Nat) : Prop :=
  (holders m.workers)[n]? = some false → m.load + 1 ≤ m.gate.capacity.count

/-- `SpareFor` for the failed item and, so that it is there if the backend refuses it, for the item
the backend is about to answer for. -/
structure Spared (m : Machine α) : Prop where
  failed : ∀ f, m.cell.captured = some f → m.SpareFor f.item
  handed : ∀ n, m.producer.handed? = some n → m.SpareFor n

theorem Spared.new (setup : Setup α) (scope : Scope) : (Machine.new setup scope).Spared :=
  ⟨nofun, nofun⟩

theorem TicketsOk.load_le (h : m.TicketsOk) : m.load ≤ m.gate.capacity.count := by
  have hbalance := h.balance
  have hone := m.gate.capacity.one_le
  unfold load
  cases hp : m.producer <;> rw [hp] at hbalance <;>
    simp only [Phase.tickets, Phase.isHanding, Bool.toNat_true, Bool.toNat_false] at hbalance ⊢ <;>
    omega

theorem load_step {move : Move α} (h : Transition m move m') :
    m'.load ≤ m.load ∨ m.FindsEmpty := by
  by_cases hread : m.FindsEmpty
  · exact Or.inr hread
  have hhanding : m'.producer.isHanding.toNat ≤ m.producer.isHanding.toNat := by
    cases hnext : m'.producer.isHanding with
    | false => exact Nat.zero_le _
    | true => rw [← (isHanding_step h hnext).resolve_right fun h => hread h.1, hnext]
  refine Or.inl ?_
  unfold load
  cases ticketStep h with
  | still _ hholders => rw [inFlight_congr hholders]; omega
  | cancelled _ _ workers | waits _ _ workers | granted _ _ workers | givenUp _ _ workers
  | returned _ _ workers => rw [workers]; omega
  | @handed item phase gate hholders holds =>
    have hgone : m'.producer.isHanding = false := by
      have hnone := holds m.gate.capacity.count
      cases hp : m'.producer <;> first | rfl | (rw [hp] at hnone; cases hnone)
    rw [inFlight_of_handed hholders, phase, hgone]
    exact Nat.le_refl _
  | left own held gate hholders =>
    have hcount := inFlight_of_left held hholders
    omega

/-- What was to spare before a step still is, unless the step `FindsEmpty`. A ticket that was not
back before and is now is itself the one to spare. -/
theorem spareFor_step {move : Move α} {n : Nat} (ht : m.TicketsOk) (h : Transition m move m')
    (hbefore : (holders m.workers)[n]? = some false → m.load + 1 ≤ m.gate.capacity.count ∧
      ¬ m.FindsEmpty) : m'.SpareFor n := by
  intro hback
  rw [(ticketStep h).capacity_eq]
  rcases (ticketStep h).holder n with hold | ⟨-, -, hnew⟩ | ⟨-, -, hheld, -⟩
  · obtain ⟨hspare, hread⟩ := hbefore (hold ▸ hback)
    have hload := (load_step h).resolve_right hread
    omega
  · rw [hback] at hnew
    cases hnew
  · obtain ⟨hcount, hproducer⟩ := (ticketStep h).inFlight_of_back hheld hback
    have hle := ht.load_le
    unfold load at hle ⊢
    rw [hproducer]
    omega

theorem Spared.step {move : Move α} {current : Option (Call α)} (hs : m.Spared) (ht : m.TicketsOk)
    (ha : m.Accounted) (hord : m.Orderly current) (h : Transition m move m') : m'.Spared := by
  have hhanded {n : Nat} (hn : m.producer.handed? = some n) : m'.SpareFor n := by
    refine spareFor_step ht h fun hback => ⟨hs.handed n hn hback, ?_⟩
    rintro ⟨⟨item, hp⟩, -⟩
    rw [hp] at hn
    cases hn
  refine ⟨fun f hf => ?_, fun n hn => ?_⟩
  · cases (cellStep h).1 with
    | same cell =>
      rw [cell] at hf
      exact spareFor_step ht h fun hback => ⟨hs.failed f hf hback, not_findsEmpty hf⟩
    -- The worker that has just recorded its failure still holds its ticket.
    | @worker n w g e empty hw phase full =>
      obtain rfl : g = f := Option.some.inj (full.symm.trans hf)
      have htells : e.Tells n g := by
        have haccounts := ha n w hw
        rw [phase] at haccounts
        exact haccounts
      have hitem : g.item = n := by
        cases e <;> first | exact htells.2 | exact htells.1 | cases htells
      refine spareFor_step ht h fun hback => ?_
      rw [hitem, holders, marks_getElem? _ hw, phase] at hback
      cases hback
    | @refusal g empty phase idle full =>
      obtain rfl : g = f := Option.some.inj (full.symm.trans hf)
      exact hhanded (by rw [phase]; rfl)
  · cases callStep h with
    | ends _ idle =>
      rw [idle] at hn
      cases hn
    | goesOn _ _ hands =>
      rcases hands with ⟨hsame, -⟩ | ⟨item, -, hnew, -⟩
      · exact hhanded (hsame ▸ hn)
      · refine spareFor_step ht h fun hback => ?_
        obtain rfl : m.dispatched = n := Option.some.inj (hnew.symm.trans hn)
        obtain ⟨hlt, -⟩ := List.getElem?_eq_some_iff.mp hback
        simp only [holders, length_marks, hord.numbered] at hlt
        exact absurd hlt (Nat.lt_irrefl _)

/-! ## Submissions that fail at once -/

theorem admitted_of_spare (ht : m.TicketsOk) (hp : m.producer = .admitting item)
    (hopen : m.gate.cancelled = false) (hspare : m.load + 1 ≤ m.gate.capacity.count) :
    ∃ gate, m.step .producer = some { m with gate, producer := .checking item } := by
  have hb : m.gate.Balanced (fun _ => some .ticket) (inFlight m.workers) := by
    have h' := ht
    rw [TicketsOk, hp] at h'
    exact h'
  have henough : GateRequest.ticket.need m.gate.capacity.count ≤ m.gate.permits.total := by
    have hbalance := hb.balance
    show 1 ≤ m.gate.permits.total
    unfold load at hspare
    omega
  obtain ⟨hready, gate, hask⟩ := hb.line.granted_of_enough hopen henough
  refine ⟨gate, ?_⟩
  simp only [step, stepProducer, hp, hready, if_true, askTicket, askGate, hask]

theorem admitting_step (hp : m.producer = .admitting item) (hopen : m.gate.cancelled = false)
    (hstep : m.step .producer = some m') :
    ∃ gate p, (p = .admitting item ∨ p = .checking item) ∧
      m' = { m with gate := gate, producer := p } := by
  simp only [step, stepProducer, hp] at hstep
  split at hstep
  · obtain rfl := Option.some.inj hstep
    unfold askTicket askGate
    split
    · rename_i gate _
      exact ⟨gate, .admitting item, Or.inl rfl, by rw [← hp]⟩
    · rename_i gate _
      exact ⟨gate, .checking item, Or.inr rfl, rfl⟩
    · rename_i hask
      obtain ⟨hcancelled, -⟩ := Gate.ask_error hask
      rw [hopen] at hcancelled
      cases hcancelled
  · cases hstep

/-- The moves of a submission that does not wait, up to its answer. -/
def submission (item : WorkItem α) : List (Move α) := [.call (.submit item), .producer, .producer]

/-- Between two calls of a failed bundle, with a ticket to spare. From here a `submission` runs
without a step of anybody else, which `Failing.submissions` repeats. -/
structure Failing (m : Machine α) (f : Failure) : Prop where
  tickets : m.TicketsOk
  idle : m.producer = .idle
  stage : m.stage = .started
  full : m.cell.captured = some f
  uncancelled : m.gate.cancelled = false
  spare : inFlight m.workers + 1 ≤ m.gate.capacity.count

theorem Failing.submission (h : m.Failing f) (item : WorkItem α) :
    ∃ m', m.run (submission item) = some m' ∧ m.FailsWith m' f ∧ m'.Failing f := by
  have hcall : m.step (.call (.submit item)) = some { m with producer := .admitting item } := by
    simp only [step, isBusy, h.idle, beginCall, h.stage]
    rfl
  have hbegun := h.tickets.step (transition_of_step hcall)
  obtain ⟨gate, hask⟩ := admitted_of_spare hbegun rfl h.uncancelled h.spare
  have hadmitted := hbegun.step (transition_of_step hask)
  obtain ⟨m', hcheck, heq, hout⟩ := failsWith_of_checking hadmitted rfl h.full
  have hanswered := hadmitted.step (transition_of_step hcheck)
  have hticket := ticketStep (transition_of_step hask)
  have hticket' := ticketStep (transition_of_step hcheck)
  have hcancelled := hticket'.cancelled_eq fun ho => by cases ho
  have hcap := hticket'.capacity_eq
  rw [hticket.cancelled_eq fun ho => by cases ho] at hcancelled
  rw [hticket.capacity_eq] at hcap
  refine ⟨m', ?_, ⟨heq, hout⟩, ?_⟩
  · rw [Machine.submission, run_cons, hcall, Option.bind_some, run_cons, hask, Option.bind_some,
      run_singleton, hcheck]
  · refine ⟨hanswered, ?_, ?_, ?_, hcancelled.trans h.uncancelled, ?_⟩
    · rw [heq]
    · rw [heq]
      exact h.stage
    · rw [heq]
      exact h.full
    · rw [hcap, show m'.workers = m.workers from by rw [heq]]
      exact h.spare

theorem Failing.submissions (h : m.Failing f) (items : List (WorkItem α)) :
    ∃ gate, m.run (items.flatMap Machine.submission) = some { m with
      gate := gate
      replies := m.replies ++ items.map fun _ => .answer (.error f.toError) } ∧
      gate.outstanding = inFlight m.workers := by
  induction items generalizing m with
  | nil =>
    refine ⟨m.gate, ?_, ?_⟩
    · simp [Machine.run]
    · rw [h.tickets.outstanding_eq, acceptedTickets_of_answered (by rw [answeredFor, h.idle])]
      simp [submissionTickets, drainTickets, h.idle]
  | cons item items ih =>
    obtain ⟨m₁, hone, ⟨heq, -⟩, hfailing⟩ := h.submission item
    obtain ⟨gate, hrest, hout⟩ := ih hfailing
    refine ⟨gate, ?_, ?_⟩
    · rw [List.flatMap_cons, run_trans hone hrest, heq, ← h.idle]
      simp
    · rw [hout, heq]

/-! ## What still comes through -/

/-- After a capture, the only item that can still be handed over is the one whose submission
`isHanding`; its read was made before. -/
structure Closing (m m' : Machine α) : Prop where
  items : m'.items = m.items ∧ (m'.producer.isHanding = true → m'.producer = m.producer) ∨
    ∃ item, m.producer = .handing item ∧ m'.items = m.items ++ [item] ∧
      m'.producer.isHanding = false

theorem closing_run {later : List (Move α)} (hrun : m.run later = some m')
    (hf : m.cell.captured = some f) : Closing m m' := by
  refine (run_invariant (I := fun m₁ => m₁.cell.captured = some f ∧ Closing m m₁) ?_
    ⟨hf, ⟨Or.inl ⟨rfl, fun _ => rfl⟩⟩⟩ hrun).2
  rintro m₁ m₂ move ⟨hf₁, ⟨hclosing⟩⟩ h
  have hstays (hnext : m₂.producer.isHanding = true) : m₂.producer = m₁.producer :=
    (isHanding_step h hnext).resolve_right fun hread => not_findsEmpty hf₁ hread.1
  refine ⟨captured_step h hf₁, ⟨?_⟩⟩
  rcases hclosing with ⟨hitems, hsame⟩ | ⟨item, hp, hitems, hdone⟩
  · by_cases hhanding : ∃ item, m₁.producer = .handing item
    · obtain ⟨item, hp₁⟩ := hhanding
      have hp : m.producer = .handing item := (hsame (by rw [hp₁]; rfl)).symm.trans hp₁
      rcases handing_step h hp₁ with hcall | rfl
      · exact Or.inl ⟨hcall.items.trans hitems, fun _ => by rw [hcall.producer, hp₁, hp]⟩
      · exact Or.inr ⟨item, hp, by rw [items_hand, hitems], m₁.isHanding_hand item⟩
    · refine Or.inl ⟨(items_step h fun item hp => hhanding ⟨item, hp⟩).trans hitems, fun hnext => ?_⟩
      have hold := hstays hnext
      exact hold.trans (hsame (hold ▸ hnext))
  · refine Or.inr ⟨item, hp, ?_, ?_⟩
    · rw [items_step h fun item hp₁ => ?_, hitems]
      rw [hp₁] at hdone
      cases hdone
    · cases hnext : m₂.producer.isHanding with
      | false => rfl
      | true => rw [← hdone, ← hstays hnext, hnext]

/-- Something else moves while a submission `isHanding`. The code has no point of suspension there,
so on a runtime with a single thread nothing can; `not_handing_of_captured` then excludes the late
item. -/
def Interleaved (m₀ : Machine α) (moves : List (Move α)) : Prop :=
  m₀.Happens moves fun m move => m.producer.isHanding = true ∧ move ≠ .producer

theorem not_handing_of_captured {m₀ : Machine α} {moves : List (Move α)}
    (h₀ : m₀.producer.isHanding = false) (hrun : m₀.run moves = some m)
    (hblock : ¬ m₀.Interleaved moves) (hf : m.cell.captured.isSome) :
    m.producer.isHanding = false := by
  refine run_induction (Q := fun moves m => ¬ m₀.Interleaved moves → m.cell.captured.isSome →
    m.producer.isHanding = false) (fun _ _ => h₀) ?_ hrun hblock hf
  intro moves m m' move hrun ih hstep hblock hf
  have h := transition_of_step hstep
  obtain ⟨hblock, hmove⟩ := not_or.mp ((happens_concat hrun).not.mp hblock)
  cases hnext : m'.producer.isHanding with
  | false => rfl
  | true =>
    exfalso
    rcases isHanding_step h hnext with hsame | ⟨⟨-, hempty⟩, hcell⟩
    · rw [hsame] at hnext
      cases hp : m.producer <;> rw [hp] at hnext <;> cases hnext
      rename_i item
      by_cases hmine : move = .producer
      · subst hmine
        cases h with
        | producer hown =>
          have hdone := m.isHanding_hand item
          rw [← hand_of_producerStep hown hp, hsame, hp] at hdone
          cases hdone
        | world world => cases world
      · exact hmove ⟨by rw [hp]; rfl, hmine⟩
    · rw [hcell, hempty] at hf
      cases hf

/-! ## Replies after a failure -/

/-- A reply that a submission can get from a bundle that has failed and that nobody cancels: the
failure, unless the call was out of order. -/
def FailedReply (f : Failure) (reply : Reply) : Prop :=
  reply = .answer (.error f.toError) ∨ ∃ v, reply = .answer (.error (.lifecycle v))

theorem failedReply_of_end {move : Move α} {current : Option (Call α)} {reply : Reply}
    (hord : m.Orderly current) (h : Transition m move m') (hend : CallEnd m m' reply)
    (hcall : move.call?.or current = some (.submit item)) (hf : m.cell.captured = some f)
    (hread : m.producer.hasRead = false) (hopen : m.gate.cancelled = false) :
    FailedReply f reply := by
  have hserves := hord.serves
  -- A call that was in progress before this step is the last one made.
  have hcurrent (hbusy : m.producer ≠ .idle) : current = some (.submit item) := by
    rwa [call?_eq_none h hbusy] at hcall
  cases hend with
  | violation => exact Or.inr ⟨_, rfl⟩
  | tooLate phase full =>
    rw [hf] at full
    cases full
    exact Or.inl rfl
  | startHook phase | failed phase | finishHook phase =>
    rw [hcurrent (by rw [phase]; nofun), phase] at hserves
    cases hserves
  | cancelled cancelled =>
    rw [hopen] at cancelled
    cases cancelled
  | left phase | refused phase | outdone phase =>
    rw [phase] at hread
    cases hread
  | taken phase =>
    rcases phase with phase | phase
    all_goals
      rw [phase] at hread
      cases hread

theorem failedReply_run {later : List (Move α)} {current : Option (Call α)} {reply : Reply}
    (hord : m.Orderly current) (hrun : m.run later = some m') (hf : m.cell.captured = some f)
    (hread : m.producer.hasRead = false) (hopen : m.gate.cancelled = false)
    (hnever : .cancel ∉ later)
    (hmem : (Call.submit item, reply) ∈ m.exchangesFrom current later) : FailedReply f reply := by
  induction later generalizing m current with
  | nil => cases hmem
  | cons move later ih =>
    obtain ⟨m₁, hstep, hrest⟩ := Option.bind_eq_some_iff.mp hrun
    have h := transition_of_step hstep
    simp only [exchangesFrom, hstep, List.mem_append] at hmem
    rcases hmem with hmem | hmem
    · cases callStep h with
      | goesOn replies =>
        rw [answered_of_replies_eq replies] at hmem
        cases hmem
      | @ends answer replies _ _ hend =>
        rw [answered_of_reply replies] at hmem
        obtain ⟨call, hcall, heq⟩ := Option.map_eq_some_iff.mp (Option.mem_toList.mp hmem)
        cases heq
        exact failedReply_of_end hord h hend hcall hf hread hopen
    · have hmove : move ≠ .cancel := fun heq => hnever (heq ▸ List.mem_cons_self)
      refine ih (hord.step h) hrest (captured_step h hf) (hasRead_step h hf hread) ?_
        (fun hmem => hnever (List.mem_cons_of_mem _ hmem)) hmem
      rw [(ticketStep h).cancelled_eq hmove]
      exact hopen

/-! ## The whole run -/

section

variable {setup : Setup α} {scope : Scope} {moves later : List (Move α)}

theorem spared_run (hrun : (Machine.new setup scope).run moves = some m) : m.Spared := by
  refine run_induction (Q := fun _ m => m.Spared) (.new setup scope) ?_ hrun
  intro moves m m' move hrun hs hstep
  have hd := drains hrun
  exact hs.step hd.tickets (accounted_run hrun) hd.orderly (transition_of_step hstep)

theorem uncancelled_run (hrun : (Machine.new setup scope).run moves = some m)
    (hnever : .cancel ∉ moves) : m.gate.cancelled = false := by
  refine run_induction (Q := fun moves m => .cancel ∉ moves → m.gate.cancelled = false)
    (fun _ => rfl) ?_ hrun hnever
  intro moves m m' move hrun ih hstep hnever
  rw [(ticketStep (transition_of_step hstep)).cancelled_eq fun heq => hnever (by simp [heq])]
  exact ih fun hmem => hnever (List.mem_append_left _ hmem)

theorem back_run {n : Nat} (hrun : m.run later = some m')
    (hback : (holders m.workers)[n]? = some false) : (holders m'.workers)[n]? = some false := by
  refine run_invariant (I := fun m => (holders m.workers)[n]? = some false) ?_ hback hrun
  intro m₁ m₂ move hback h
  rcases (ticketStep h).holder n with hold | ⟨-, hnone, -⟩ | ⟨-, -, hheld, -⟩
  · exact hold.trans hback
  · rw [hback] at hnone
    cases hnone
  · rw [hback] at hheld
    cases hheld

/-- No new work after a failure, and no waiting either. Once a failure is captured, it stays; at
most one more item is handed to the backend, namely that of a submission that had read the cell
before, and none if nothing moves between its read and the hand-over. A submission that reads the
cell afterwards gives its ticket back and answers with the failure, and changes nothing else on its
way. From the moment the failed item's ticket is back, one ticket is never with a worker, so any
number of submissions fail one after the other without waiting for a worker. -/
theorem no_work_after_failure (hrun : (Machine.new setup scope).run moves = some m)
    (hf : m.cell.captured = some f) (hlater : m.run later = some m')
    (hnever : .cancel ∉ moves ++ later) :
    m'.cell.captured = some f ∧
    (m'.items = m.items ∨ ∃ item, m.producer = .handing item ∧ m'.items = m.items ++ [item]) ∧
    (¬ (Machine.new setup scope).Interleaved (moves ++ later) → m'.items = m.items) ∧
    (m'.dispatched = m'.items.length ∧ m'.tally.submitted = m'.items.length) ∧
    (m.producer.hasRead = false → ∀ item reply,
      (Call.submit item, reply) ∈ m.exchangesFrom (lastCall none moves) later →
        FailedReply f reply) ∧
    (∀ item, m'.producer = .admitting item → ∀ m'', m'.step .producer = some m'' →
      ∃ gate p, (p = .admitting item ∨ p = .checking item) ∧
        m'' = { m' with gate := gate, producer := p }) ∧
    (∀ item, m'.producer = .checking item →
      ∃ m'', m'.step .producer = some m'' ∧ m'.FailsWith m'' f) ∧
    ((holders m.workers)[f.item]? = some false →
      inFlight m'.workers + 1 ≤ setup.parallelism.count ∧
      (∀ item, m'.producer = .admitting item →
        ∃ gate, m'.step .producer = some { m' with gate, producer := .checking item }) ∧
      (m'.producer = .idle → m'.stage = .started → ∀ items : List (WorkItem α), ∃ gate,
        m'.run (items.flatMap submission) = some { m' with
          gate := gate
          replies := m'.replies ++ items.map fun _ => .answer (.error f.toError) } ∧
        gate.outstanding = inFlight m'.workers)) := by
  have hwhole := run_trans hrun hlater
  have hd := drains hwhole
  have hf' := captured_run hlater hf
  have hopen := uncancelled_run hwhole hnever
  have hclosing := (closing_run hlater hf).items
  have hlength : m'.items.length = m'.workers.length := by rw [items, List.length_map]
  refine ⟨hf', ?_, fun hblock => ?_, ⟨?_, ?_⟩, ?_, ?_, ?_, fun hback => ?_⟩
  · rcases hclosing with ⟨hitems, -⟩ | ⟨item, hp, hitems, -⟩
    · exact Or.inl hitems
    · exact Or.inr ⟨item, hp, hitems⟩
  · rcases hclosing with ⟨hitems, -⟩ | ⟨item, hp, -⟩
    · exact hitems
    · have hbefore : ¬ (Machine.new setup scope).Interleaved moves := by
        rintro ⟨before, move, after, m₁, rfl, h₁, hP⟩
        exact hblock ⟨before, move, after ++ later, m₁, by simp, h₁, hP⟩
      have hnot := not_handing_of_captured rfl hrun hbefore (by rw [hf]; rfl)
      rw [hp] at hnot
      cases hnot
  · rw [hlength]
    exact hd.orderly.numbered
  · rw [hlength]
    exact ((Counted.new setup scope).run hwhole).submitted
  · intro hread item reply hmem
    have hfirst := uncancelled_run hrun fun hmem => hnever (List.mem_append_left _ hmem)
    exact failedReply_run (drains hrun).orderly hlater hf hread hfirst
      (fun hmem => hnever (List.mem_append_right _ hmem)) hmem
  · intro item hp m'' hstep
    exact admitting_step hp hopen hstep
  · intro item hp
    exact failsWith_of_checking hd.tickets hp hf'
  · have hspare := (spared_run hwhole).failed f hf' (back_run hlater hback)
    have hcap := capacity_run hwhole
    refine ⟨?_, fun item hp => admitted_of_spare hd.tickets hp hopen hspare, ?_⟩
    · rw [← hcap]
      unfold load at hspare
      omega
    · intro hidle hstage items
      refine Failing.submissions ⟨hd.tickets, hidle, hstage, hf', hopen, ?_⟩ items
      unfold load at hspare
      omega

end

/-- One element that fails, and its ticket is back. -/
def brokenMoves : List (Move Nat) :=
  [.call .start, .producer,
    .call (.submit { value := 7, script := [.fail (.user "boom" [])] }),
    .producer, .producer, .producer, .worker 0, .worker 0, .worker 0, .worker 0]

/-- The submission of another element. -/
def futileMoves : List (Move Nat) := submission { value := 8 }

theorem no_work_after_failure_solo :
    ∃ m m' f, (Machine.new soloSetup).run brokenMoves = some m ∧ m.cell.captured = some f ∧
      m.run futileMoves = some m' ∧ m'.items = m.items ∧ inFlight m'.workers + 1 ≤ 1 := by
  have hfirst : ((Machine.new soloSetup).run brokenMoves).map (fun m =>
      (m.cell.captured.map (·.item), holders m.workers, m.producer.isHanding)) =
        some (some 0, [false], false) := by decide +kernel
  have hboth : ((Machine.new soloSetup).run (brokenMoves ++ futileMoves)).isSome = true := by
    decide +kernel
  have hnever : ∀ move ∈ brokenMoves ++ futileMoves, move ≠ .cancel := by
    simp [brokenMoves, futileMoves, submission]
  obtain ⟨m, hrun, hm⟩ := Option.map_eq_some_iff.mp hfirst
  obtain ⟨f, hf, hitem⟩ := Option.map_eq_some_iff.mp (congrArg Prod.fst hm)
  rw [run_append, hrun, Option.bind_some] at hboth
  obtain ⟨m', hlater⟩ := Option.isSome_iff_exists.mp hboth
  have hback : (holders m.workers)[f.item]? = some false := by
    rw [hitem, show holders m.workers = [false] from congrArg (·.2.1) hm]
    rfl
  obtain ⟨-, hitems, -, -, -, -, -, hspare⟩ :=
    no_work_after_failure hrun hf hlater fun hmem => hnever _ hmem rfl
  refine ⟨m, m', f, hrun, hf, hlater, ?_, (hspare hback).1⟩
  rcases hitems with hitems | ⟨item, hp, -⟩
  · exact hitems
  · have hnot : m.producer.isHanding = false := congrArg (·.2.2) hm
    rw [hp] at hnot
    cases hnot

end Machine

end WorkBundle
