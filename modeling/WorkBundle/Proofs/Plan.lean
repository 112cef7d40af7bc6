import WorkBundle.Bundle
import WorkBundle.Proofs.Drain

/-!
# Whole bundles

A producer that runs a whole bundle makes its calls by itself, one after the other, and nobody
cancels them; what happens around it are inner moves only. `Run.Sound` says, for each point of its
plan, what the engine is like: the calls come in order, so none is refused, and a finish can only
end after its drain. Hence the bundle is over when it has a result.
-/

set_option autoImplicit false

namespace WorkBundle

variable {α : Type}

namespace Machine

/-! ## Calls in order -/

theorem beginCall_start {m : Machine α} (hs : m.stage = .created) : m.beginCall .start =
    { m with producer := .starting { script := m.setup.processor.startHook } } := by
  simp only [beginCall, hs]

theorem beginCall_submit {m : Machine α} (hs : m.stage = .started) (item : WorkItem α) :
    m.beginCall (.submit item) = { m with producer := .admitting item } := by
  simp only [beginCall, hs]

theorem beginCall_finish {m : Machine α} (hs : m.stage = .started) :
    m.beginCall .finish = { m with stage := .finished, producer := .draining } := by
  simp only [beginCall, hs]

theorem cancelled_step {m m' : Machine α} {move : Move α} (h : Transition m move m')
    (hinner : move.isInner = true) : m'.gate.cancelled = m.gate.cancelled := by
  refine (ticketStep h).cancelled_eq ?_
  rintro rfl
  cases hinner

end Machine

namespace Run

/-- A run of a bundle through a list of moves, each of which can happen when its turn comes. It is
to `Run.step` what `Machine.run` is to `Machine.step`. -/
def follow (r : Run α) (moves : List (Move α)) : Option (Run α) := moves.foldlM step r

theorem follow_cons (r : Run α) (move : Move α) (moves : List (Move α)) :
    r.follow (move :: moves) = (r.step move).bind (·.follow moves) := rfl

theorem follow_singleton (r : Run α) (move : Move α) : r.follow [move] = r.step move :=
  foldlM_singleton r move

theorem follow_append (r : Run α) (moves later : List (Move α)) :
    r.follow (moves ++ later) = (r.follow moves).bind (·.follow later) :=
  List.foldlM_append

theorem follow_concat {r r' : Run α} {moves : List (Move α)} {move : Move α}
    (h : r.follow (moves ++ [move]) = some r') :
    ∃ r₁, r.follow moves = some r₁ ∧ r₁.step move = some r' :=
  foldlM_concat_eq_some h

theorem step_cases {r r' : Run α} {move : Move α} (h : r.step move = some r') :
    move = .producer ∧ r.machine.producer = .idle ∧ r.proceed = some r' ∨
      ∃ m', r.machine.step move = some m' ∧ r' = { r with machine := m' } := by
  unfold step at h
  split at h
  · rename_i hbusy
    exact Or.inl ⟨rfl, Machine.idle_of_not_busy hbusy, h⟩
  · obtain ⟨m', hm', rfl⟩ := Option.map_eq_some_iff.mp h
    exact Or.inr ⟨m', hm', rfl⟩

/-- What the engine is like at each point of the plan. From this the calls of a bundle are never
refused, so its producer needs no branch for a `LifecycleViolation`. -/
def Follows (m : Machine α) : Plan α → Prop
  | .none => True
  | .opening _ => m.stage = .created ∧ m.producer = .idle ∧ m.workers = []
  | .opened _ =>
    m.workers = [] ∧ ((∃ a, m.producer = .starting a) ∨
      m.producer = .idle ∧ (m.replies.getLast? = some (.answer (.ok ())) → m.stage = .started))
  | .feeding _ =>
    m.stage = .started ∧ (m.producer.stage? = some .started ∨
      m.producer = .idle ∧ ∃ answer, m.replies.getLast? = some (.answer answer))
  | .closing _ => m.stage = .finished ∧ (m.producer.stage? = some .finished ∨ m.Quiet)
  | .over _ => m.Quiet

theorem idle_of_stage? {p : Phase α} (h : p.stage? = none) : p = .idle := by
  cases p <;> first | rfl | cases h

theorem starting_of_stage? {p : Phase α} (h : p.stage? = some .created) : ∃ a, p = .starting a := by
  cases p <;> first | exact ⟨_, rfl⟩ | cases h

theorem workers_nil_step {m m' : Machine α} {move : Move α} (h : Machine.Transition m move m')
    (hnil : m.workers = []) (hphase : m.producer.stage? ≠ some .started) : m'.workers = [] := by
  cases Machine.workersStep h with
  | same workers => rw [workers, hnil]
  | more phase =>
    rw [phase] at hphase
    exact absurd rfl hphase
  | change worker =>
    rw [hnil] at worker
    cases worker

namespace Follows

variable {m m' : Machine α} {move : Move α}

theorem opened {items : List (WorkItem α)} (hf : Follows m (.opened items))
    (h : Machine.Transition m move m') (hinner : move.isInner = true) :
    Follows m' (.opened items) := by
  obtain ⟨hnil, hphase⟩ := hf
  have hnil' : m'.workers = [] := by
    refine workers_nil_step h hnil ?_
    rcases hphase with ⟨a, hp⟩ | ⟨hp, -⟩
    all_goals
      rw [hp]
      nofun
  refine ⟨hnil', ?_⟩
  cases Machine.callStep h with
  | goesOn replies phase _ =>
    obtain ⟨hp', hs'⟩ := phase hinner
    rcases hphase with ⟨a, hp⟩ | ⟨hp, hbegun⟩
    · rw [hp] at hp'
      exact Or.inl (starting_of_stage? hp')
    · rw [hp] at hp'
      rw [replies, hs']
      exact Or.inr ⟨idle_of_stage? hp', hbegun⟩
  | ends replies idle _ how =>
    refine Or.inr ⟨idle, fun hok => ?_⟩
    rw [replies, List.getLast?_concat, Option.some.injEq] at hok
    have hend := how.at_stage
    rcases hphase with ⟨a, hp⟩ | ⟨hp, -⟩
    · rw [hp] at hend
      obtain ⟨outcome, rfl, -, hbegun⟩ := hend
      cases outcome with
      | returned => exact hbegun rfl
      | failed | panicked => cases hok
    · rw [hp] at hend
      obtain ⟨v, rfl⟩ := hend
      cases hok

theorem feeding {items : List (WorkItem α)} (hf : Follows m (.feeding items))
    (h : Machine.Transition m move m') (hinner : move.isInner = true) :
    Follows m' (.feeding items) := by
  obtain ⟨hstage, hphase⟩ := hf
  cases Machine.callStep h with
  | goesOn replies phase _ =>
    obtain ⟨hp', hs'⟩ := phase hinner
    refine ⟨hs'.trans hstage, ?_⟩
    rcases hphase with hp | ⟨hp, hlast⟩
    · exact Or.inl (hp'.trans hp)
    · rw [hp] at hp'
      rw [replies]
      exact Or.inr ⟨idle_of_stage? hp', hlast⟩
  | ends replies idle stage how =>
    have hstage' : m'.stage = .started := by
      rcases stage with hs | ⟨a, hp⟩
      · exact hs.trans hstage
      · rw [hp] at hphase
        rcases hphase with hphase | ⟨hphase, -⟩ <;> cases hphase
    refine ⟨hstage', Or.inr ⟨idle, ?_⟩⟩
    rw [replies, List.getLast?_concat]
    have hend := how.at_stage
    rcases hphase with hp | ⟨hp, -⟩
    · rw [hp] at hend
      obtain ⟨answer, rfl⟩ := hend
      exact ⟨answer, rfl⟩
    · rw [hp] at hend
      obtain ⟨v, rfl⟩ := hend
      exact ⟨_, rfl⟩

theorem call?_of_isInner (hinner : move.isInner = true) : move.call? = none := by
  cases move <;> first | rfl | cases hinner

theorem closing {failed : Option ExecutionError} (hf : Follows m (.closing failed))
    (h : Machine.Transition m move m') (hinner : move.isInner = true) (htickets : m.TicketsOk)
    (hopen : m.gate.cancelled = false) : Follows m' (.closing failed) := by
  obtain ⟨hstage, hphase⟩ := hf
  rcases hphase with hp | hquiet
  · cases Machine.callStep h with
    | goesOn replies phase _ =>
      obtain ⟨hp', hs'⟩ := phase hinner
      exact ⟨hs'.trans hstage, Or.inl (hp'.trans hp)⟩
    | ends replies idle stage how =>
      have hend := how.at_stage
      rw [hp] at hend
      rcases hend with hcancelled | ⟨hworkers, hdrained⟩
      · rw [hopen] at hcancelled
        cases hcancelled
      · have hstage' : m'.stage = .finished := by
          rcases stage with hs | ⟨a, hstart⟩
          · exact hs.trans hstage
          · rw [hstart] at hp
            cases hp
        have hempty := htickets.inFlight_zero hdrained
        exact ⟨hstage', Or.inr ⟨idle, by rw [hworkers]; exact hempty⟩⟩
  · obtain ⟨hquiet', hs', -⟩ := hquiet.step h (Or.inl hstage)
    exact ⟨hs'.trans hstage, Or.inr hquiet'⟩

theorem step {plan : Plan α} (hf : Follows m plan) (h : Machine.Transition m move m')
    (hinner : move.isInner = true) (htickets : m.TicketsOk) (hopen : m.gate.cancelled = false) :
    Follows m' plan := by
  cases plan with
  | none => trivial
  | opening items =>
    obtain ⟨hstage, hp, hnil⟩ := hf
    have hquiet : m.Quiet := ⟨hp, by rw [hnil]; rfl⟩
    obtain ⟨hquiet', hs', -⟩ := hquiet.step h (Or.inr (call?_of_isInner hinner))
    exact ⟨hs'.trans hstage, hquiet'.idle, workers_nil_step h hnil (by rw [hp]; nofun)⟩
  | opened items => exact hf.opened h hinner
  | feeding items => exact hf.feeding h hinner
  | closing failed => exact hf.closing h hinner htickets hopen
  | _ => exact (Machine.Quiet.step hf h (Or.inr (call?_of_isInner hinner))).1

end Follows

/-! ## The producer goes on with its plan -/

/-- What the producer does next when no call is in progress. This is the relation behind
`Run.proceed`, with one constructor for each point of the plan and each reply that matters there. -/
inductive Next (r : Run α) : Run α → Prop
  | start {items : List (WorkItem α)} (plan : r.plan = .opening items) :
      Next r (r.makeCall .start (.opened items))
  | submit {item : WorkItem α} {items : List (WorkItem α)}
      (plan : r.plan = .opened (item :: items) ∨ r.plan = .feeding (item :: items))
      (last : r.lastReply = .answer (.ok ())) :
      Next r (r.makeCall (.submit item) (.feeding items))
  | finish (plan : r.plan = .opened [] ∨ r.plan = .feeding [])
      (last : r.lastReply = .answer (.ok ())) : Next r (r.makeCall .finish (.closing none))
  | stop {items : List (WorkItem α)} {e : ExecutionError} (plan : r.plan = .feeding items)
      (last : r.lastReply = .answer (.error e)) :
      Next r (r.makeCall .finish (.closing (some e)))
  | unopened {items : List (WorkItem α)} (plan : r.plan = .opened items)
      (last : r.lastReply ≠ .answer (.ok ())) : Next r { r with plan := .over r.lastReply }
  | lost {items : List (WorkItem α)} (plan : r.plan = .feeding items) (last : r.lastReply = .panic) :
      Next r { r with plan := .over .panic }
  /-- The error of a submission, `failed`, wins over the answer of the finish. -/
  | close {failed : Option ExecutionError} {reply : Reply} (plan : r.plan = .closing failed)
      (word : reply = r.lastReply ∧ (failed = none ∨ r.lastReply = .panic) ∨
        ∃ e, failed = some e ∧ reply = .answer (.error e)) :
      Next r { r with plan := .over reply }

theorem next_of_feed {r r' : Run α} {items : List (WorkItem α)}
    (hplan : r.plan = .opened items ∨ r.plan = .feeding items)
    (hlast : r.lastReply = .answer (.ok ())) (h : r' = r.feed items) : Next r r' := by
  cases items with
  | nil =>
    rw [h]
    exact .finish hplan hlast
  | cons item items =>
    rw [h]
    exact .submit hplan hlast

theorem next_of_proceed {r r' : Run α} (h : r.proceed = some r') : Next r r' := by
  unfold proceed at h
  cases hplan : r.plan with
  | opening items =>
    rw [hplan] at h
    cases h
    exact .start hplan
  | opened items =>
    rw [hplan] at h
    dsimp only at h
    split at h
    · exact next_of_feed (Or.inl hplan) ‹_› (Option.some.inj h).symm
    · rename_i hlast
      cases h
      exact .unopened hplan fun hok => hlast hok
  | feeding items =>
    rw [hplan] at h
    dsimp only at h
    split at h
    · exact next_of_feed (Or.inr hplan) ‹_› (Option.some.inj h).symm
    · cases h
      exact .stop hplan ‹_›
    · cases h
      exact .lost hplan ‹_›
  | closing failed =>
    rw [hplan] at h
    dsimp only at h
    cases hlast : r.lastReply with
    | panic =>
      rw [hlast] at h
      cases h
      exact .close hplan (Or.inl ⟨hlast.symm, Or.inr hlast⟩)
    | answer a =>
      rw [hlast] at h
      cases failed with
      | none =>
        cases h
        exact .close hplan (Or.inl ⟨hlast.symm, Or.inl rfl⟩)
      | some e =>
        cases h
        exact .close hplan (Or.inr ⟨e, rfl, rfl⟩)
  | _ =>
    rw [hplan] at h
    cases h

theorem getLast?_of_lastReply {r : Run α} {a : Answer} (h : r.lastReply = .answer a) :
    r.machine.replies.getLast? = some (.answer a) := by
  unfold lastReply at h
  cases hlast : r.machine.replies.getLast? with
  | none =>
    rw [hlast] at h
    cases h
  | some reply =>
    rw [hlast] at h
    rw [← h]
    rfl

theorem lastReply_of_getLast? {r : Run α} {reply : Reply}
    (h : r.machine.replies.getLast? = some reply) : r.lastReply = reply := by
  rw [lastReply, h]
  rfl

theorem Follows.not_lost {r : Run α} {items : List (WorkItem α)} (hf : Follows r.machine r.plan)
    (hp : r.machine.producer = .idle) (hplan : r.plan = .feeding items) : r.lastReply ≠ .panic := by
  intro hlost
  rw [hplan] at hf
  obtain ⟨-, hphase | ⟨-, answer, hlast⟩⟩ := hf
  · rw [hp] at hphase
    cases hphase
  · cases (lastReply_of_getLast? hlast).symm.trans hlost

theorem Follows.started {r : Run α} {items : List (WorkItem α)} (hf : Follows r.machine r.plan)
    (hp : r.machine.producer = .idle) (hplan : r.plan = .opened items ∨ r.plan = .feeding items)
    (hlast : r.lastReply = .answer (.ok ())) : r.machine.stage = .started := by
  rcases hplan with hplan | hplan
  · rw [hplan] at hf
    obtain ⟨-, ⟨a, hstart⟩ | ⟨-, hbegun⟩⟩ := hf
    · rw [hp] at hstart
      cases hstart
    · exact hbegun (getLast?_of_lastReply hlast)
  · rw [hplan] at hf
    exact hf.1

/-- Each call is made when it is due, so `Follows` is kept by the plan as well. -/
theorem Follows.next {r r' : Run α} (hf : Follows r.machine r.plan)
    (hp : r.machine.producer = .idle) (h : Next r r') : Follows r'.machine r'.plan := by
  have hsubmit {items : List (WorkItem α)} (hs : r.machine.stage = .started) (item : WorkItem α) :
      Follows (r.machine.beginCall (.submit item)) (.feeding items) := by
    rw [Machine.beginCall_submit hs]
    exact ⟨hs, Or.inl rfl⟩
  have hfinish {failed : Option ExecutionError} (hs : r.machine.stage = .started) :
      Follows (r.machine.beginCall .finish) (.closing failed) := by
    rw [Machine.beginCall_finish hs]
    exact ⟨rfl, Or.inl rfl⟩
  cases h with
  | start plan =>
    rw [plan] at hf
    obtain ⟨hs, -, hnil⟩ := hf
    show Follows (r.machine.beginCall .start) _
    rw [Machine.beginCall_start hs]
    exact ⟨hnil, Or.inl ⟨_, rfl⟩⟩
  | submit plan last => exact hsubmit (hf.started hp plan last) _
  | finish plan last => exact hfinish (hf.started hp plan last)
  | stop plan =>
    rw [plan] at hf
    exact hfinish hf.1
  | unopened plan =>
    rw [plan] at hf
    exact ⟨hp, by rw [hf.1]; rfl⟩
  | lost plan last => exact absurd last (hf.not_lost hp plan)
  | close plan =>
    rw [plan] at hf
    obtain ⟨-, hphase | hquiet⟩ := hf
    · rw [hp] at hphase
      cases hphase
    · exact hquiet

theorem next_machine {r r' : Run α} (h : Next r r') :
    r'.machine = r.machine ∨ ∃ c, r'.machine = r.machine.beginCall c := by
  cases h with
  | start => exact Or.inr ⟨.start, rfl⟩
  | @submit item => exact Or.inr ⟨.submit item, rfl⟩
  | finish | stop => exact Or.inr ⟨.finish, rfl⟩
  | unopened | lost | close => exact Or.inl rfl

theorem beginCall_gate (m : Machine α) (c : Call α) : (m.beginCall c).gate = m.gate := by
  cases c
  all_goals
    unfold Machine.beginCall
    dsimp only
    split <;> rfl

/-- The engine `Follows` the plan of its producer, with its tickets in order and its token
untouched. A bundle owns its token, so nobody can cancel it. -/
structure Sound (r : Run α) : Prop where
  tickets : r.machine.TicketsOk
  uncancelled : r.machine.gate.cancelled = false
  follows : Follows r.machine r.plan

namespace Sound

theorem bundle (setup : Setup α) (scope : Scope) (items : List (WorkItem α)) :
    (Run.bundle (.new setup scope) items).Sound :=
  ⟨.new setup scope, rfl, rfl, rfl, rfl⟩

theorem step {r r' : Run α} {move : Move α} (hr : r.Sound) (hinner : move.isInner = true)
    (h : r.step move = some r') : r'.Sound := by
  rcases step_cases h with ⟨rfl, hp, hproceed⟩ | ⟨m', hm', rfl⟩
  · have hnext := next_of_proceed hproceed
    have hfollows := hr.follows.next hp hnext
    rcases next_machine hnext with heq | ⟨c, heq⟩
    · exact ⟨heq ▸ hr.tickets, heq ▸ hr.uncancelled, hfollows⟩
    · refine ⟨?_, ?_, hfollows⟩
      · rw [heq]
        exact hr.tickets.step (Machine.transition_of_beginCall c hp)
      · rw [heq, beginCall_gate]
        exact hr.uncancelled
  · have ht := Machine.transition_of_step hm'
    refine ⟨hr.tickets.step ht, ?_, hr.follows.step ht hinner hr.tickets hr.uncancelled⟩
    exact (Machine.cancelled_step ht hinner).trans hr.uncancelled

end Sound

/-- What every step keeps holds at the end of every run, as with `Machine.run_invariant`. Steps may
be restricted to moves of a kind. -/
theorem follow_invariant {I : Run α → Prop} {A : Move α → Prop}
    (hstep : ∀ {r r' : Run α} {move : Move α}, I r → A move → r.step move = some r' → I r')
    {r r' : Run α} {moves : List (Move α)} (h : I r) (hmoves : ∀ move ∈ moves, A move)
    (hrun : r.follow moves = some r') : I r' :=
  foldlM_invariant hstep h hmoves hrun

theorem Sound.run {r r' : Run α} {moves : List (Move α)} (hr : r.Sound)
    (hmoves : ∀ move ∈ moves, move.isInner = true) (hrun : r.follow moves = some r') : r'.Sound :=
  follow_invariant (fun hr hmove h => hr.step hmove h) hr hmoves hrun

theorem plan_of_result? {r : Run α} {reply : Reply} (h : r.result? = some reply) :
    r.plan = .over reply := by
  unfold result? at h
  split at h
  · rename_i hplan
    cases h
    exact hplan
  · cases h

theorem Sound.quiet {r : Run α} (h : r.Sound) {reply : Reply} (hplan : r.plan = .over reply) :
    r.machine.Quiet := by
  have hfollows := h.follows
  rwa [hplan] at hfollows

/-- A bundle that has a result is over: the engine is `Quiet`, and nothing reaches the sink any
more. -/
theorem over_run {r r' : Run α} {moves : List (Move α)} {reply : Reply}
    (hplan : r.plan = .over reply) (hq : r.machine.Quiet)
    (hmoves : ∀ move ∈ moves, move.isInner = true) (hrun : r.follow moves = some r') :
    r'.machine.Quiet ∧ r'.plan = .over reply ∧ r.machine.SameSink r'.machine := by
  refine follow_invariant (A := fun move => move.isInner = true)
    (I := fun r₁ => r₁.machine.Quiet ∧ r₁.plan = .over reply ∧ r.machine.SameSink r₁.machine)
    ?_ ⟨hq, hplan, rfl, rfl⟩ hmoves hrun
  rintro r₁ r₂ move ⟨hq₁, hplan₁, hsink₁⟩ hinner h
  rcases step_cases h with ⟨-, -, hproceed⟩ | ⟨m', hm', rfl⟩
  · simp only [proceed, hplan₁] at hproceed
    cases hproceed
  · have ht := Machine.transition_of_step hm'
    obtain ⟨hq₂, -, hsink₂, -⟩ := hq₁.step ht (Or.inr (Follows.call?_of_isInner hinner))
    exact ⟨hq₂, hplan₁, hsink₂.1.trans hsink₁.1, hsink₂.2.trans hsink₁.2⟩

end Run

end WorkBundle
