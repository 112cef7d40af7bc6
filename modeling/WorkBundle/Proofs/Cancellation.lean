import WorkBundle.Proofs.Calling
import WorkBundle.Proofs.Drain

/-!
# Cancellation

A cancelled token turns away every call that has not got past the gate, whatever the gate or the
failure cell holds (`Machine.step_of_cancelled`): the call ends with the cancellation of the point
it waits at, and what it had gathered goes back, so that what is logged as outstanding are the
tickets of the workers in flight. Once no call is past the gate, no call gets past it any more, so
that nothing is dispatched and the finish hook is not called (`Machine.Shut`).

A call past the gate does not see the token. Workers do not see the calls; hence a run after a
cancellation has a run without it beside it, with the same moves of all others, which comes to the
same but for what the callers are told (`Machine.Parallel`).
-/

set_option autoImplicit false

namespace WorkBundle

variable {α : Type}

/-- No call is in progress, or one that still asks the gate (`request?`). Past the gate a submission
or a drain holds its tickets and no longer looks at the token, so a cancellation cannot reach it. -/
def Phase.isOutside : Phase α → Bool
  | .idle | .admitting _ | .draining => true
  | _ => false

theorem Phase.idle_or_asks {p : Phase α} (h : p.isOutside = true) :
    p = .idle ∨ ∃ r, p.request? = some r := by
  cases p with
  | idle => exact Or.inl rfl
  | admitting => exact Or.inr ⟨_, rfl⟩
  | draining => exact Or.inr ⟨_, rfl⟩
  | _ => cases h

/-- Where a cancellation can meet this call; a `start` does not ask the gate and cannot be
cancelled. -/
def Call.cancelPoint? : Call α → Option CancelPoint
  | .start => none
  | .submit _ => some .admission
  | .finish => some .drain

theorem Phase.outside_of_asks {p : Phase α} {r : GateRequest} (h : p.request? = some r) :
    p.isOutside = true := by
  cases p with
  | admitting | draining => rfl
  | _ => cases h

namespace Machine

variable {m m' p : Machine α} {move : Move α} {moves later : List (Move α)} {n : Nat}
  {current : Option (Call α)} {r : GateRequest}

/-! ## The call that is turned away -/

/-- The engine after a call has been turned away at the gate. What the call had gathered goes back
by `leave`, which is why the event counts the tickets of the workers alone. -/
def turnAway (m : Machine α) (r : GateRequest) : Machine α :=
  { m with
    gate := m.gate.leave ()
    producer := .idle
    replies := m.replies ++ [.answer (.error (.cancelled r.point))]
    log := m.log ++ [⟨.admissionCancelled r.point (inFlight m.workers), bundleSpans⟩] }

theorem outstanding_turnAway (h : m.TicketsOk) (hasks : m.producer.request? = some r) :
    (m.gate.leave ()).outstanding = inFlight m.workers := by
  have hleave := (h.asking hasks).leave ()
  have hnobody : Function.update (fun _ : Unit => m.producer.request?) () none = fun _ => none := by
    funext u
    exact Function.update_self ..
  rw [hnobody] at hleave
  exact hleave.outstanding_of_nobody

theorem step_of_cancelled (h : m.TicketsOk) (hcancelled : m.gate.cancelled = true)
    (hasks : m.producer.request? = some r) : m.step .producer = some (m.turnAway r) := by
  have hready : m.gate.isReady () = true := by rw [Gate.isReady, hcancelled]; rfl
  have hask : m.gate.ask () r = (m.gate.leave (), some (.error (.cancelled r.point))) := by
    rw [Gate.ask_eq, if_pos hcancelled]
  have hout := outstanding_turnAway h hasks
  cases hp : m.producer with
  | admitting item =>
    rw [hp] at hasks
    cases hasks
    simp only [step, stepProducer, hp, hready, if_true, askTicket, askGate, hask, turnAway, ← hout]
    rfl
  | draining =>
    rw [hp] at hasks
    cases hasks
    simp only [step, stepProducer, hp, hready, if_true, askEverything, askGate, hask, turnAway, ← hout]
    rfl
  | _ =>
    rw [hp] at hasks
    cases hasks

/-! ## The gate is closed -/

theorem cancelled_of_step (h : Transition m move m') (hcancelled : m.gate.cancelled = true) :
    m'.gate.cancelled = true := by
  by_cases hmove : move = .cancel
  · subst hmove
    cases h with
    | cancel => rfl
    | world hworld => cases hworld
  · rw [(ticketStep h).cancelled_eq hmove]
    exact hcancelled

/-- The token of a started engine is cancelled and no call is past the gate. This is kept by every
step (`ShutStep`), so from here on all calls are turned away. -/
structure Shut (m : Machine α) : Prop where
  started : m.stage ≠ .created
  cancelled : m.gate.cancelled = true
  outside : m.producer.isOutside = true

/-- What a call is told at a closed gate: that it is cancelled. The exception `late` is needed
because a bundle that was finished answers with the lifecycle violation before the gate is asked. -/
def TurnedAway (late : Prop) (c : Call α) (reply : Reply) : Prop :=
  ∀ point, c.cancelPoint? = some point →
    reply = .answer (.error (.cancelled point)) ∨
      late ∧ ∃ v, c.violation? .finished = some v ∧ reply = .answer (.error (.lifecycle v))

theorem TurnedAway.mono {late late' : Prop} {c : Call α} {reply : Reply}
    (h : TurnedAway late c reply) (hle : late → late') : TurnedAway late' c reply :=
  fun point hpoint => (h point hpoint).imp_right fun hlate => ⟨hle hlate.1, hlate.2⟩

structure ShutStep (m m' : Machine α) (move : Move α) (current : Option (Call α)) : Prop where
  shut : m'.Shut
  finished : m'.stage = .finished → m.stage = .finished ∨ move = .call .finish
  dispatched : m'.dispatched = m.dispatched
  items : m'.items = m.items
  told : m'.replies = m.replies ∨ ∃ c reply, m'.replies = m.replies ++ [reply] ∧
    move.call?.or current = some c ∧ TurnedAway (m.stage = .finished) c reply

theorem ShutStep.of_sameCall (h : m.Shut) (hsame : SameCall m m')
    (hcancelled : m'.gate.cancelled = true) : ShutStep m m' move current where
  shut := ⟨hsame.stage ▸ h.started, hcancelled, hsame.producer ▸ h.outside⟩
  finished := fun hf => Or.inl (hsame.stage ▸ hf)
  dispatched := hsame.dispatched
  items := hsame.items
  told := Or.inl hsame.replies

theorem shutStep_of_request (hord : m.Orderly current) (h : m.Shut)
    (hasks : m.producer.request? = some r) :
    ShutStep m (m.turnAway r) .producer current where
  shut := ⟨h.started, h.cancelled, rfl⟩
  finished := Or.inl
  dispatched := rfl
  items := rfl
  told := by
    have hserves := hord.serves
    cases hp : m.producer with
    | admitting item =>
      rw [hp] at hasks hserves
      cases hasks
      refine Or.inr ⟨.submit item, _, rfl, hserves, fun point hpoint => Or.inl ?_⟩
      cases hpoint
      rfl
    | draining =>
      rw [hp] at hasks hserves
      cases hasks
      refine Or.inr ⟨.finish, _, rfl, hserves, fun point hpoint => Or.inl ?_⟩
      cases hpoint
      rfl
    | _ =>
      rw [hp] at hasks
      cases hasks

theorem shutStep (htickets : m.TicketsOk) (hord : m.Orderly current) (h : m.Shut)
    (hstep : m.step move = some m') : ShutStep m m' move current := by
  have ht := transition_of_step hstep
  have houtside := h.outside
  have hcancelled := cancelled_of_step ht h.cancelled
  cases ht with
  | @violation c v idle wrong =>
    refine ⟨⟨h.started, h.cancelled, rfl⟩, Or.inl, rfl, rfl, Or.inr ⟨c, _, rfl, rfl, ?_⟩⟩
    intro point hpoint
    -- In a bundle that is started only a second start is out of order.
    cases hstage : m.stage with
    | created => exact absurd hstage h.started
    | finished =>
      rw [hstage] at wrong
      exact Or.inr ⟨rfl, v, wrong, rfl⟩
    | started =>
      rw [hstage] at wrong
      cases c with
      | start => cases hpoint
      | submit | finish => cases wrong
  | start _ stage => exact absurd stage h.started
  | submit => exact ⟨⟨h.started, h.cancelled, rfl⟩, Or.inl, rfl, rfl, Or.inl rfl⟩
  | finish =>
    exact ⟨⟨by nofun, h.cancelled, rfl⟩, fun _ => Or.inr rfl, rfl, rfl, Or.inl rfl⟩
  | abandonWait => exact ⟨⟨h.started, h.cancelled, rfl⟩, Or.inl, rfl, rfl, Or.inl rfl⟩
  | abandonStart phase | abandonFinish phase =>
    rw [phase] at houtside
    cases houtside
  | producer step =>
    rcases Phase.idle_or_asks houtside with hidle | ⟨r, hasks⟩
    · exact absurd hidle (not_idle_of_producerStep step)
    · rw [step_of_cancelled htickets h.cancelled hasks] at hstep
      cases hstep
      exact shutStep_of_request hord h hasks
  | worker _ step => exact .of_sameCall h (.of_worker step) hcancelled
  | drop _ _ step => exact .of_sameCall h (.of_drop step) hcancelled
  | cancel | world => exact .of_sameCall h ⟨rfl, rfl, rfl, rfl, rfl, rfl⟩ hcancelled

/-- What a whole run can do at a closed gate, by induction from `ShutStep`: nothing is handed over,
no finish hook is called and every call is `TurnedAway`, while workers go on. -/
structure ShutRun (m m' : Machine α) (current : Option (Call α)) (later : List (Move α)) :
    Prop where
  shut : m'.Shut
  dispatched : m'.dispatched = m.dispatched
  items : m'.items = m.items
  hooks : m.finishHooks later = 0
  told : ∀ c reply, (c, reply) ∈ m.exchangesFrom current later →
    TurnedAway (m.stage = .finished ∨ .call .finish ∈ later) c reply

theorem shutRun (htickets : m.TicketsOk) (hord : m.Orderly current) (h : m.Shut)
    (hrun : m.run later = some m') : ShutRun m m' current later := by
  induction later generalizing m current with
  | nil =>
    cases hrun
    exact ⟨h, rfl, rfl, rfl, fun _ _ hmem => by cases hmem⟩
  | cons move later ih =>
    obtain ⟨m₁, hstep, hrest⟩ := Option.bind_eq_some_iff.mp hrun
    have ht := transition_of_step hstep
    have hs := shutStep htickets hord h hstep
    have hr := ih (htickets.step ht) (hord.step ht) hs.shut hrest
    refine ⟨hr.shut, hr.dispatched.trans hs.dispatched, hr.items.trans hs.items, ?_, ?_⟩
    · have hcalm : m.callsFinishHook m₁ = false := by
        have houtside := hs.shut.outside
        cases hp : m₁.producer with
        | finishing =>
          rw [hp] at houtside
          cases houtside
        | _ => rw [callsFinishHook, hp]; rfl
      simp only [finishHooks, hstep, hcalm, hr.hooks]
      rfl
    · intro c reply hmem
      simp only [exchangesFrom, hstep, List.mem_append] at hmem
      rcases hmem with hmem | hmem
      · rcases hs.told with hsame | ⟨c', reply', hreplies, hcall, htold⟩
        · rw [answered_of_replies_eq hsame] at hmem
          cases hmem
        · rw [answered_of_reply hreplies, hcall] at hmem
          cases List.mem_singleton.mp hmem
          exact htold.mono Or.inl
      · refine (hr.told c reply hmem).mono fun hlate => ?_
        rcases hlate with hstage | hfinish
        · exact (hs.finished hstage).imp_right fun heq => by
            rw [heq]
            exact List.mem_cons_self
        · exact Or.inr (List.mem_cons_of_mem _ hfinish)

/-! ## The same schedule without the cancellation -/

/-- What was logged except `admissionCancelled`, which is the only event that tells a cancelled
engine from its uncancelled twin. -/
def otherLog (m : Machine α) : List Record :=
  m.log.filter fun record =>
    match record.event with
    | .admissionCancelled .. => false
    | _ => true

/-- A cancelled engine, and the same engine uncancelled after the same moves of all others. They
differ in the token only, while a call that was past the gate goes on; from the first call that is
turned away, or would be, they differ by `withCalls`. -/
inductive Parallel : Machine α → Machine α → Prop
  | together {p : Machine α} (asks : p.producer.request? = none) : Parallel p.cancel p
  | apart {m p : Machine α} (outside : m.producer.isOutside = true)
      (waits : p.producer.isOutside = true) (rest : m.withCalls p = p)
      (log : m.otherLog = p.otherLog) : Parallel m p

theorem isLent_of_outside (h : m.producer.isOutside = true) (n : Nat) : m.isLent n = false := by
  cases hp : m.producer with
  | polling | dropping =>
    rw [hp] at h
    cases h
  | _ => rw [isLent, hp]

theorem isDropped_of_outside (h : m.producer.isOutside = true) (n : Nat) :
    m.isDropped n = false := by
  cases hp : m.producer with
  | dropping =>
    rw [hp] at h
    cases h
  | _ => rw [isDropped, hp]

theorem Parallel.rest (h : Parallel m p) : m.withCalls p = p := by
  cases h with
  | together => rfl
  | apart _ _ rest => exact rest

theorem Parallel.log (h : Parallel m p) : m.otherLog = p.otherLog := by
  cases h with
  | together => rfl
  | apart _ _ _ log => exact log

theorem outside_of_call {c : Call α} (hstarted : m.stage ≠ .created)
    (hstep : m.step (.call c) = some m') :
    m.producer = .idle ∧ m'.producer.isOutside = true ∧ m'.withCalls p = m.withCalls p ∧
      m'.otherLog = m.otherLog := by
  cases transition_of_step hstep with
  | violation idle | submit idle | finish idle => exact ⟨idle, rfl, rfl, rfl⟩
  | start _ stage => exact absurd stage hstarted
  | world hworld => cases hworld

theorem outside_of_caller (htickets : m.TicketsOk) (hcancelled : m.gate.cancelled = true)
    (houtside : m.producer.isOutside = true) (hmove : move = .producer ∨ move = .abandon)
    (hstep : m.step move = some m') :
    m'.producer.isOutside = true ∧ m'.withCalls p = m.withCalls p ∧ m'.otherLog = m.otherLog := by
  rcases Phase.idle_or_asks houtside with hidle | ⟨r, hasks⟩
  -- Without a call in progress there is nothing to do.
  · rcases hmove with rfl | rfl
    · simp only [step, stepProducer, hidle] at hstep
      cases hstep
    · simp only [step, abandon, hidle] at hstep
      cases hstep
  · rcases hmove with rfl | rfl
    · rw [step_of_cancelled htickets hcancelled hasks] at hstep
      cases hstep
      exact ⟨rfl, rfl, by simp [otherLog, turnAway]⟩
    · cases transition_of_step hstep with
      | abandonWait => exact ⟨rfl, rfl, rfl⟩
      | abandonStart phase | abandonFinish phase =>
        rw [phase] at houtside
        cases houtside
      | world hworld => cases hworld

theorem Parallel.step (h : Parallel m p) (htickets : m.TicketsOk) (hstarted : m.stage ≠ .created)
    (hcancelled : m.gate.cancelled = true) (hstep : m.step move = some m') :
    move.isAside = false ∧ Parallel m' p ∨
      move.call? = none ∧ move ≠ .cancel ∧ ∃ p', p.step move = some p' ∧ Parallel m' p' := by
  cases h with
  | together asks =>
    -- The call past the gate goes on in both, as does everybody else.
    have hgoes (hcall : move.call? = none) (hmove : move ≠ .cancel) :
        move.call? = none ∧ move ≠ .cancel ∧ ∃ p', p.step move = some p' ∧ Parallel m' p' := by
      rw [step_cancel hcall asks] at hstep
      obtain ⟨p', hp', rfl⟩ := Option.map_eq_some_iff.mp hstep
      exact ⟨hcall, hmove, p', hp',
        .together (request?_of_step (transition_of_step hp') hcall asks)⟩
    cases move with
    | call c =>
      obtain ⟨hidle, houtside, hrest, hlog⟩ := outside_of_call (p := p) hstarted hstep
      have hwaits : p.producer.isOutside = true := by
        rw [show p.producer = .idle from hidle]
        rfl
      exact Or.inl ⟨rfl, .apart houtside hwaits hrest hlog⟩
    | cancel =>
      cases hstep
      exact Or.inl ⟨rfl, .together asks⟩
    | _ => exact Or.inr (hgoes rfl (by nofun))
  | apart outside waits rest log =>
    -- What the caller does has no counterpart from here on; all else is done in both.
    have haside (hmove : move.isAside = true) :
        ∃ p', p.step move = some p' ∧ Parallel m' p' := by
      have hlent (n : Nat) : (m.withCalls p).isLent n = m.isLent n := by
        rw [rest, isLent_of_outside waits, isLent_of_outside outside]
      have hdropped (n : Nat) : (m.withCalls p).isDropped n = m.isDropped n := by
        rw [rest, isDropped_of_outside waits, isDropped_of_outside outside]
      obtain ⟨o, ho, hs⟩ := step_withCalls hmove hlent hdropped hstep
      rw [rest] at ho
      obtain ⟨new, hnew, hnew'⟩ := hs.log
      refine ⟨m'.withCalls o, ho, .apart (hs.producer.1 ▸ outside) ?_ rfl ?_⟩
      · show o.producer.isOutside = true
        rw [hs.producer.2]
        exact waits
      · have hlog : (m'.withCalls o).otherLog = o.otherLog := rfl
        rw [hlog, otherLog, otherLog, hnew, hnew', List.filter_append, List.filter_append]
        exact congrArg (· ++ _) log
    have hcaller (hmove : move = .producer ∨ move = .abandon) : Parallel m' p := by
      obtain ⟨houtside, hrest, hlog⟩ :=
        outside_of_caller (p := p) htickets hcancelled outside hmove hstep
      exact .apart houtside waits (hrest.trans rest) (hlog.trans log)
    cases move with
    | call c =>
      obtain ⟨-, houtside, hrest, hlog⟩ := outside_of_call (p := p) hstarted hstep
      exact Or.inl ⟨rfl, .apart houtside waits (hrest.trans rest) (hlog.trans log)⟩
    | producer => exact Or.inl ⟨rfl, hcaller (Or.inl rfl)⟩
    | abandon => exact Or.inl ⟨rfl, hcaller (Or.inr rfl)⟩
    | cancel =>
      cases hstep
      exact Or.inl ⟨rfl, .apart outside waits rest log⟩
    | _ => exact Or.inr ⟨rfl, by nofun, haside rfl⟩

theorem Parallel.run (h : Parallel m p) (htickets : m.TicketsOk) (hord : m.Orderly current)
    (hstarted : m.stage ≠ .created) (hcancelled : m.gate.cancelled = true)
    (hrun : m.run later = some m') :
    ∃ kept p', kept.Sublist later ∧ kept.filter (·.isAside) = later.filter (·.isAside) ∧
      (∀ move ∈ kept, move.call? = none ∧ move ≠ .cancel) ∧ p.run kept = some p' ∧
      Parallel m' p' := by
  induction later generalizing m p current with
  | nil =>
    cases hrun
    exact ⟨[], p, .slnil, rfl, List.forall_mem_nil _, rfl, h⟩
  | cons move later ih =>
    obtain ⟨m₁, hstep, hrest⟩ := Option.bind_eq_some_iff.mp hrun
    have ht := transition_of_step hstep
    have hstarted₁ : m₁.stage ≠ .created := fun hs => hstarted (hord.created_before ht hs)
    have hlater {q : Machine α} (hq : Parallel m₁ q) :=
      ih hq (htickets.step ht) (hord.step ht) hstarted₁ (cancelled_of_step ht hcancelled) hrest
    rcases h.step htickets hstarted hcancelled hstep with
      ⟨hmove, hq⟩ | ⟨hcall, hmove, q, hstep', hq⟩
    · obtain ⟨kept, p', hsub, hfilter, hmoves, hrun', hp'⟩ := hlater hq
      exact ⟨kept, p', hsub.cons move, by rw [hfilter, List.filter_cons_of_neg (by simp [hmove])],
        hmoves, hrun', hp'⟩
    · obtain ⟨kept, p', hsub, hfilter, hmoves, hrun', hp'⟩ := hlater hq
      refine ⟨move :: kept, p', hsub.cons_cons move, ?_, ?_, ?_, hp'⟩
      · rw [List.filter_cons, List.filter_cons, hfilter]
      · exact List.forall_mem_cons.mpr ⟨⟨hcall, hmove⟩, hmoves⟩
      · rw [run_cons, hstep']
        exact hrun'

/-- A cancellation wins over everything else that a call at the gate could be told, and disturbs
nobody else. Once the token of a started engine is cancelled, a call that asks the gate is turned
away by its next step, whatever is free, granted or captured; what is logged as outstanding are the
tickets of the workers in flight. From a moment on at which no call is past the gate, every
submission and every finish is turned away, nothing is dispatched, and the finish hook is not
called. A call that is past the gate goes on as if the token were not cancelled. And what the
workers emit and how they end is what it is in a run without the cancellation, with the same moves
of everybody but the caller. -/
theorem cancellation_wins {setup : Setup α} {scope : Scope}
    (hrun : (Machine.new setup scope).run moves = some m) (hstarted : m.stage ≠ .created) :
    (m.gate.cancelled = true →
      (∀ r, m.producer.request? = some r → m.step .producer = some (m.turnAway r) ∧
        (m.turnAway r).gate.outstanding = inFlight m.workers) ∧
      (m.producer.isOutside = true → ∀ later m', m.run later = some m' →
        m'.producer.isOutside = true ∧ m'.dispatched = m.dispatched ∧ m'.items = m.items ∧
        m.finishHooks later = 0 ∧
        ∀ c reply, (c, reply) ∈ m.exchangesFrom (lastCall none moves) later →
          TurnedAway (m.stage = .finished ∨ .call .finish ∈ later) c reply)) ∧
    (m.producer.request? = none → ∀ later, (∀ move ∈ later, move.call? = none) →
      m.cancel.run later = (m.run later).map cancel) ∧
    ∀ later m', m.cancel.run later = some m' →
      ∃ kept m'', kept.Sublist later ∧ kept.filter (·.isAside) = later.filter (·.isAside) ∧
        (∀ move ∈ kept, move.call? = none ∧ move ≠ .cancel) ∧ m.run kept = some m'' ∧
        m'.withCalls m'' = m'' ∧ m'.otherLog = m''.otherLog := by
  have hd := drains hrun
  refine ⟨fun hcancelled => ⟨fun r hasks => ?_, fun houtside later m' hlater => ?_⟩, ?_, ?_⟩
  · exact ⟨step_of_cancelled hd.tickets hcancelled hasks, outstanding_turnAway hd.tickets hasks⟩
  · have hr := shutRun hd.tickets hd.orderly ⟨hstarted, hcancelled, houtside⟩ hlater
    exact ⟨hr.shut.outside, hr.dispatched, hr.items, hr.hooks, hr.told⟩
  · exact fun hasks later hcalls => run_cancel hcalls hasks
  · intro later m' hlater
    have hparallel : Parallel m.cancel m := by
      cases hasks : m.producer.request? with
      | none => exact .together hasks
      | some r => exact .apart (Phase.outside_of_asks hasks) (Phase.outside_of_asks hasks) rfl rfl
    have hcancel : m.step .cancel = some m.cancel := rfl
    have ht := transition_of_step hcancel
    obtain ⟨kept, m'', hsub, hfilter, hmoves, hrun'', hp⟩ :=
      hparallel.run (hd.tickets.step ht) (hd.orderly.step ht) hstarted rfl hlater
    exact ⟨kept, m'', hsub, hfilter, hmoves, hrun'', hp.rest, hp.log⟩

/-- As many elements are handled at a time as when nothing is asked for. -/
def hushSetup : Setup Nat := { processor := { name := "hush" } }

/-- The bundle is finished while its only element is being handled, so that the drain has gathered
all tickets but one. -/
def hushMoves : List (Move Nat) :=
  [.call .start, .producer,
    .call (.submit { value := 7, script := [.emit (.output (.given 7))] }),
    .producer, .producer, .producer, .worker 0, .call .finish, .producer]

/-- The finish is turned away while the worker emits; a second one comes too late. -/
def hushLater : List (Move Nat) :=
  [.worker 0, .worker 0, .producer, .worker 0, .worker 0, .call .finish, .worker 0, .worker 0]

theorem cancellation_wins_hush :
    ∃ m m' kept m'', (Machine.new hushSetup).run hushMoves = some m ∧
      m.cancel.step .producer = some (m.cancel.turnAway .everything) ∧
      (m.cancel.turnAway .everything).gate.outstanding = 1 ∧
      m.cancel.run hushLater = some m' ∧ m'.dispatched = m.dispatched ∧
      m.cancel.finishHooks hushLater = 0 ∧ m.run kept = some m'' ∧ m'.withCalls m'' = m'' := by
  have hstate : ((Machine.new hushSetup).run hushMoves).map (fun m => (m.stage,
      m.producer.request?, inFlight m.workers)) = some (.finished, some .everything, 1) := by
    decide +kernel
  have hsome : ((Machine.new hushSetup).run (hushMoves ++ .cancel :: hushLater)).isSome = true := by
    decide +kernel
  obtain ⟨m, hrun, hm⟩ := Option.map_eq_some_iff.mp hstate
  obtain ⟨hstage, hasks, hflight⟩ : m.stage = .finished ∧
      m.producer.request? = some .everything ∧ inFlight m.workers = 1 := by simpa using hm
  obtain ⟨m', hrun'⟩ := Option.isSome_iff_exists.mp hsome
  rw [run_append, hrun] at hrun'
  have hlater : m.cancel.run hushLater = some m' := hrun'
  have hstarted : m.stage ≠ .created := by rw [hstage]; nofun
  obtain ⟨-, -, hsame⟩ := cancellation_wins hrun hstarted
  have hcancelled : (Machine.new hushSetup).run (hushMoves ++ [.cancel]) = some m.cancel :=
    run_trans hrun rfl
  obtain ⟨hshut, -⟩ := cancellation_wins hcancelled hstarted
  obtain ⟨haway, hrest⟩ := hshut rfl
  obtain ⟨hstep, hout⟩ := haway .everything hasks
  obtain ⟨-, hdispatched, -, hhooks, -⟩ := hrest (Phase.outside_of_asks hasks) _ _ hlater
  obtain ⟨kept, m'', -, -, -, hkept, hwith, -⟩ := hsame hushLater m' hlater
  exact ⟨m, m', kept, m'', hrun, hstep, hout.trans hflight, hlater, hdispatched, hhooks, hkept,
    hwith⟩

end Machine

end WorkBundle
