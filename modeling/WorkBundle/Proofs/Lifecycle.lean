import WorkBundle.Proofs.Barrier
import WorkBundle.Proofs.Counts

/-!
# The life of a bundle

A bundle is created, started and finished, and its calls have to come in that order. `Stage.after`
is the automaton: where a call that has ended with this reply takes the bundle. `Machine.KeepsOrder`
says that the engine follows it: of the calls of a run, just those are refused that are out of order
at the stage at which the calls before them have left the bundle (`Stage.afterAll`), and the start
hook is called once at most.

The engine does not always follow it. A start puts down how its hook has ended, rather than where
the bundle is before the hook begins, so a hook that panics leaves the bundle as it was created, and
the next start calls the hook again. `in_order_iff_not_restarted` says that nothing else can go
wrong. It rests on what the engine itself goes by: the calls of which it has taken `noticed`, which
are all that have ended but the starts whose hook has panicked. `Lived` says that they are right
about the stage, whatever happens.

A call that is given up in the middle has no reply, so all this is about runs in which none is.
-/

set_option autoImplicit false

namespace WorkBundle

variable {α : Type}

/-! ## The automaton -/

/-- The stage at which a call is due; at any other it gives a `LifecycleViolation`. -/
def Call.due : Call α → Stage
  | .start => .created
  | .submit _ | .finish => .started

/-- The stage of the bundle while the call is in progress. It differs from `Call.due` for a finish,
which takes the bundle to its end before it drains. -/
def Call.during : Call α → Stage
  | .start => .created
  | .submit _ => .started
  | .finish => .finished

/-- Where a call that has ended with this reply takes the bundle. A start that succeeds makes it
started, one that fails in any way, its hook's panic included, makes it finished, and so does every
finish of a started bundle. -/
def Stage.after : Stage → Call α → Reply → Stage
  | .created, .start, .answer (.ok ()) => .started
  | .created, .start, _ => .finished
  | .started, .finish, _ => .finished
  | s, _, _ => s

def Stage.afterAll (s : Stage) (ended : List (Call α × Reply)) : Stage :=
  ended.foldl (fun s e => s.after e.1 e.2) s

def Reply.violation? : Reply → Option LifecycleViolation
  | .answer (.error (.lifecycle v)) => some v
  | _ => none

def isBrokenStart : Call α × Reply → Bool
  | (.start, .panic) => true
  | _ => false

/-- The calls of which the engine has taken notice. For a start hook that has panicked
`Machine.startEnded` sets no stage, so that such a start has left nothing behind. -/
def noticed (ended : List (Call α × Reply)) : List (Call α × Reply) :=
  ended.filter fun e => !isBrokenStart e

def Phase.isStarting : Phase α → Bool
  | .starting _ => true
  | _ => false

theorem Call.violation?_eq_none_iff (c : Call α) (s : Stage) :
    c.violation? s = none ↔ s = c.due := by
  cases c <;> cases s <;> simp [Call.violation?, Call.due]

theorem Call.due_ne_finished (c : Call α) : c.due ≠ .finished := by
  intro h
  cases c <;> cases h

@[simp] theorem Stage.afterAll_concat (s : Stage) (ended : List (Call α × Reply)) (c : Call α)
    (r : Reply) : s.afterAll (ended ++ [(c, r)]) = (s.afterAll ended).after c r := by
  rw [Stage.afterAll, List.foldl_append]
  rfl

theorem Stage.after_of_violation {s : Stage} {c : Call α} {v : LifecycleViolation}
    (h : c.violation? s = some v) (r : Reply) : s.after c r = s := by
  cases c <;> cases s <;> first | rfl | cases h

@[simp] theorem isBrokenStart_answer (c : Call α) (a : Answer) :
    isBrokenStart (c, .answer a) = false := by
  cases c <;> rfl

theorem afterAll_noticed_concat (s : Stage) (ended : List (Call α × Reply)) (c : Call α)
    (r : Reply) :
    s.afterAll (noticed (ended ++ [(c, r)])) =
      if isBrokenStart (c, r) then s.afterAll (noticed ended)
      else (s.afterAll (noticed ended)).after c r := by
  rw [noticed, List.filter_append]
  cases hbroken : isBrokenStart (c, r) with
  | true => simp [hbroken, noticed]
  | false => simp [hbroken, noticed]

theorem noticed_eq_self {ended : List (Call α × Reply)} (h : ended.countP isBrokenStart = 0) :
    noticed ended = ended :=
  List.filter_eq_self.mpr fun e he => by simpa using List.countP_eq_zero.mp h e he

theorem start_mem_of_started {ended : List (Call α × Reply)}
    (h : Stage.created.afterAll ended = .started) : (.start, .answer (.ok ())) ∈ ended := by
  induction ended using List.reverseRecOn with
  | nil => cases h
  | append_singleton ended e ih =>
    obtain ⟨c, r⟩ := e
    rw [Stage.afterAll_concat] at h
    by_cases hs : Stage.created.afterAll ended = .started
    · exact List.mem_append_left _ (ih hs)
    · have hlast : (c, r) = (.start, .answer (.ok ())) := by
        unfold Stage.after at h
        split at h
        · rfl
        · cases h
        · cases h
        · exact absurd h hs
      rw [hlast]
      exact List.mem_concat_self

namespace Machine

variable {m m' m₀ : Machine α} {move : Move α} {moves : List (Move α)} {current : Option (Call α)}

/-! ## What a step does to the life of a bundle -/

theorem violation?_hookReply (s : Setup α) (hook : Hook) (outcome : Outcome) :
    (s.hookReply hook outcome).violation? = none := by
  cases outcome <;> rfl

theorem CallEnd.violation?_eq_none {reply : Reply} (h : CallEnd m m' reply)
    (busy : m.producer ≠ .idle) : reply.violation? = none := by
  cases h with
  | violation idle => exact absurd idle busy
  | startHook => exact violation?_hookReply _ _ _
  | finishHook => exact violation?_hookReply _ _ _
  | _ => rfl

/-- What a step does to the life of a bundle. A call that ends takes the bundle to where
`Stage.after` says, unless it is a start whose hook has panicked, which leaves it where it was due.
-/
inductive LifeStep (m m' : Machine α) (move : Move α) : Prop
  | goesOn (silent : move.call? = none) (replies : m'.replies = m.replies)
      (stage : m'.stage = m.stage) (phase : m'.producer.stage? = m.producer.stage?)
  | refused {c : Call α} {v : LifecycleViolation} (call : move = .call c) (idle : m.producer = .idle)
      (wrong : c.violation? m.stage = some v) (same : m' = m.outOfOrder v)
  | begins {c : Call α} (call : move = .call c) (idle : m.producer = .idle) (due : m.stage = c.due)
      (replies : m'.replies = m.replies) (stage : m'.stage = c.during)
      (phase : m'.producer.stage? = some c.during)
  | ends {reply : Reply} (own : move = .producer) (replies : m'.replies = m.replies ++ [reply])
      (idle : m'.producer = .idle) (accepted : reply.violation? = none)
      (stage : ∀ c : Call α, m.stage = c.during → m.producer.stage? = some c.during →
        m'.stage = if isBrokenStart (c, reply) then c.due else c.due.after c reply)

theorem stage_of_startHook {a : Activity α} {reply : Reply} (h : ProducerStep m m')
    (hp : m.producer = .starting a) (hs : m.stage = .created)
    (hreply : m'.replies = m.replies ++ [reply]) :
    m'.stage = if isBrokenStart ((.start : Call α), reply) then .created
      else Stage.created.after (.start : Call α) reply := by
  cases h with
  | startOn _ act =>
    obtain ⟨_, _, _, _, _, _, rfl⟩ := act_eq act
    simp at hreply
  | @startEnd _ outcome _ _ act =>
    obtain ⟨_, _, _, _, _, _, rfl⟩ := act_eq act
    cases outcome with
    | returned =>
      obtain rfl : .answer (.ok ()) = reply := by simpa using List.append_cancel_left hreply
      rfl
    | failed cause =>
      obtain rfl : .answer (.error _) = reply := by simpa using List.append_cancel_left hreply
      rfl
    | panicked =>
      obtain rfl : .panic = reply := by simpa using List.append_cancel_left hreply
      exact hs
  | answer phase =>
    rcases phase with phase | ⟨phase, -⟩
    all_goals cases hp.symm.trans phase
  | ask phase | check phase | hand phase | keep phase | dropPolled phase | dropQueued phase
  | refusalCaptured phase | refusalLate phase | refusalCounted phase | drain phase
  | conclude phase | finishOn phase | finishEnd phase => cases hp.symm.trans phase

theorem lifeStep_of_producer (h : ProducerStep m m') : LifeStep m m' .producer := by
  have hbusy := not_idle_of_producerStep h
  cases callStep_of_producer h with
  | goesOn replies phase => exact .goesOn rfl replies (phase rfl).2 (phase rfl).1
  | ends replies idle stage how =>
    refine .ends rfl replies idle (how.violation?_eq_none hbusy) fun c hs hphase => ?_
    cases c with
    | start =>
      obtain ⟨a, hp⟩ := Run.starting_of_stage? hphase
      exact stage_of_startHook h hp hs replies
    | submit | finish =>
      -- A call that is not a start ends at the stage at which it was in progress.
      rcases stage with hstage | ⟨a, hp⟩
      · rw [hstage, hs]
        rfl
      · rw [hp] at hphase
        cases hphase

theorem lifeStep (h : Transition m move m') (hkept : move ≠ .abandon) : LifeStep m m' move := by
  cases h with
  | violation idle wrong => exact .refused rfl idle wrong rfl
  | start idle stage => exact .begins rfl idle stage rfl stage rfl
  | submit idle stage => exact .begins rfl idle stage rfl stage rfl
  | finish idle stage => exact .begins rfl idle stage rfl rfl rfl
  | abandonStart | abandonWait | abandonFinish => exact absurd rfl hkept
  | producer step => exact lifeStep_of_producer step
  | worker _ step =>
    have hsame := SameCall.of_worker step
    exact .goesOn rfl hsame.replies hsame.stage (by rw [hsame.producer])
  | drop _ _ step =>
    have hsame := SameCall.of_drop step
    exact .goesOn rfl hsame.replies hsame.stage (by rw [hsame.producer])
  | cancel => exact .goesOn rfl rfl rfl rfl
  | world hworld => exact .goesOn (Move.call?_of_isWorld hworld) rfl rfl rfl

/-! ## Runs in which no call is given up -/

theorem Orderly.call_of_busy (h : m.Orderly current) (busy : m.producer ≠ .idle) :
    ∃ c, current = some c ∧ m.producer.stage? = some c.during ∧ m.stage = c.during := by
  have hserves := h.serves
  have hstage {c : Call α} (hc : current = some c) (hp : m.producer.stage? = some c.during) :
      ∃ c, current = some c ∧ m.producer.stage? = some c.during ∧ m.stage = c.during :=
    ⟨c, hc, hp, h.stage _ hp⟩
  cases hm : m.producer <;> rw [hm] at hserves hstage
  case idle => exact absurd hm busy
  case starting | admitting | checking | handing | draining | drained | finishing =>
    exact hstage hserves rfl
  case polling | dropping | refused | outdone =>
    obtain ⟨_, _, -, -, hcurrent⟩ := hserves
    exact hstage hcurrent rfl

theorem Orderly.own_call (h : m.Orderly (lastCall none moves)) (ht : Transition m .producer m') :
    ∃ c, lastCall none (moves ++ [.producer]) = some c ∧ m.producer ≠ .idle ∧
      m.producer.stage? = some c.during ∧ m.stage = c.during := by
  have hbusy : m.producer ≠ .idle := fun hp => ne_producer_of_idle ht hp rfl
  obtain ⟨c, hcurrent, hphase, hduring⟩ := h.call_of_busy hbusy
  exact ⟨c, (lastCall_concat _ _ _).trans hcurrent, hbusy, hphase, hduring⟩

theorem exchanges_concat_of_refused {c : Call α} {v : LifecycleViolation}
    (hrun : m₀.run moves = some m) (hstep : m.step (.call c) = some (m.outOfOrder v)) :
    m₀.exchanges (moves ++ [.call c]) =
      m₀.exchanges moves ++ [(c, .answer (.error (.lifecycle v)))] :=
  exchanges_concat_of_reply hrun hstep rfl (lastCall_concat _ _ _)

/-- The calls that were `noticed` are right about the stage, and a call was refused just if it was
out of order at the stage at which those before it had left the bundle. -/
structure Lived (m₀ : Machine α) (moves : List (Move α)) (m : Machine α) : Prop where
  orderly : m.Orderly (lastCall none moves)
  refused : ∀ earlier e later, m₀.exchanges moves = earlier ++ e :: later →
    e.2.violation? = e.1.violation? (Stage.created.afterAll (noticed earlier))
  stage : m.producer = .idle → Stage.created.afterAll (noticed (m₀.exchanges moves)) = m.stage
  busy : ∀ c, m.producer ≠ .idle → lastCall none moves = some c →
    Stage.created.afterAll (noticed (m₀.exchanges moves)) = c.due

theorem Lived.new (setup : Setup α) (scope : Scope) :
    (Machine.new setup scope).Lived [] (Machine.new setup scope) where
  orderly := .new setup scope
  refused := fun earlier e later h => by cases earlier <;> cases h
  stage := fun _ => rfl
  busy := fun c hbusy => absurd rfl hbusy

theorem Lived.step (h : m₀.Lived moves m) (hrun : m₀.run moves = some m)
    (hstep : m.step move = some m') (hkept : move ≠ .abandon) : m₀.Lived (moves ++ [move]) m' := by
  have ht := transition_of_step hstep
  have hord : m'.Orderly (lastCall none (moves ++ [move])) := by
    rw [lastCall_concat]
    exact h.orderly.step ht
  cases lifeStep ht hkept with
  | goesOn _ replies stage phase =>
    have hidle : m'.producer = .idle ↔ m.producer = .idle := by
      constructor
      · intro hp
        rw [hp] at phase
        exact Run.idle_of_stage? phase.symm
      · intro hp
        rw [hp] at phase
        exact Run.idle_of_stage? phase
    refine ⟨hord, ?_, fun hp => ?_, fun c hbusy hc => ?_⟩
    all_goals rw [exchanges_concat_of_silent hrun hstep replies]
    · exact h.refused
    · rw [stage]
      exact h.stage (hidle.mp hp)
    · have hbusy' := fun hp => hbusy (hidle.mpr hp)
      refine h.busy c hbusy' ?_
      rwa [lastCall_concat, call?_eq_none ht hbusy'] at hc
  | @refused c v call idle wrong same =>
    subst call same
    have hexchanges := exchanges_concat_of_refused hrun hstep
    have hstage := h.stage idle
    refine ⟨hord, forall_cut_concat hexchanges h.refused ?_, fun _ => ?_,
      fun _ hbusy => absurd rfl hbusy⟩
    · rw [hstage, wrong]
      rfl
    · rw [hexchanges, afterAll_noticed_concat, isBrokenStart_answer, if_neg Bool.false_ne_true,
        hstage, Stage.after_of_violation wrong]
      rfl
  | @begins c call idle due replies stage phase =>
    subst call
    refine ⟨hord, ?_, fun hp => ?_, fun c' _ hc => ?_⟩
    all_goals rw [exchanges_concat_of_silent hrun hstep replies]
    · exact h.refused
    · rw [hp] at phase
      cases phase
    · rw [lastCall_concat] at hc
      cases hc
      rw [h.stage idle]
      exact due
  | @ends reply own replies idle accepted stage =>
    subst own
    obtain ⟨c, hlast, hbusy, hphase, hduring⟩ := h.orderly.own_call ht
    have hexchanges := exchanges_concat_of_reply hrun hstep replies hlast
    have hdue := h.busy c hbusy ((lastCall_concat _ _ _).symm.trans hlast)
    refine ⟨hord, forall_cut_concat hexchanges h.refused ?_, fun _ => ?_,
      fun _ hbusy => absurd idle hbusy⟩
    · rw [accepted, hdue, (c.violation?_eq_none_iff _).mpr rfl]
    · rw [hexchanges, afterAll_noticed_concat, hdue, stage c hduring hphase]

theorem lived {setup : Setup α} {scope : Scope}
    (hrun : (Machine.new setup scope).run moves = some m) (hkept : .abandon ∉ moves) :
    (Machine.new setup scope).Lived moves m := by
  refine run_induction (Q := fun moves m => .abandon ∉ moves →
    (Machine.new setup scope).Lived moves m) (fun _ => .new setup scope) ?_ hrun hkept
  intro moves m m' move hrun ih hstep hkept
  exact (ih fun hmem => hkept (List.mem_append_left _ hmem)).step hrun hstep
    fun heq => hkept (heq ▸ List.mem_concat_self)

/-! ## Calls of the hooks -/

theorem isStarting_iff {p : Phase α} : p.isStarting = true ↔ p.stage? = some .created := by
  cases p <;> simp [Phase.isStarting, Phase.stage?]

theorem isStarting_congr {p q : Phase α} (h : q.stage? = p.stage?) :
    q.isStarting = p.isStarting := by
  rw [Bool.eq_iff_iff, isStarting_iff, isStarting_iff, h]

theorem isStarting_eq_false {p : Phase α} {s : Stage} (h : p.stage? = some s)
    (hs : s ≠ .created) : p.isStarting = false :=
  Bool.eq_false_iff.mpr fun hp => hs (Option.some_inj.mp (h.symm.trans (isStarting_iff.mp hp)))

/-- Does the start hook begin between these states? It is read off the phases as `callsFinishHook`
is. -/
def callsStartHook (m m' : Machine α) : Bool := m'.producer.isStarting && !m.producer.isStarting

def startHooks (m : Machine α) (moves : List (Move α)) : Nat := m.countSteps callsStartHook moves

/-- How often the start hook has panicked in a run, counted by the replies of its `exchanges`. -/
def brokenStarts (m : Machine α) (moves : List (Move α)) : Nat :=
  (m.exchanges moves).countP isBrokenStart

/-- Has the bundle begun? Then its start hook is in progress, or has ended other than by a panic. It
is the one call of the hook that `brokenStarts` does not count. -/
def hasBegun (m : Machine α) : Bool := m.producer.isStarting || m.stage != .created

theorem brokenStarts_concat_of_silent (hrun : m₀.run moves = some m)
    (hstep : m.step move = some m') (hreplies : m'.replies = m.replies) :
    m₀.brokenStarts (moves ++ [move]) = m₀.brokenStarts moves := by
  rw [brokenStarts, exchanges_concat_of_silent hrun hstep hreplies]
  rfl

theorem brokenStarts_concat_of_reply (hrun : m₀.run moves = some m)
    (hstep : m.step move = some m') {reply : Reply} {c : Call α}
    (hreplies : m'.replies = m.replies ++ [reply])
    (hcall : lastCall none (moves ++ [move]) = some c) :
    m₀.brokenStarts (moves ++ [move]) =
      m₀.brokenStarts moves + (isBrokenStart (c, reply)).toNat := by
  rw [brokenStarts, exchanges_concat_of_reply hrun hstep hreplies hcall, List.countP_append]
  cases hb : isBrokenStart (c, reply) <;> simp [brokenStarts, hb]

theorem brokenStarts_concat_of_refused {c : Call α} {v : LifecycleViolation}
    (hrun : m₀.run moves = some m) (hstep : m.step (.call c) = some (m.outOfOrder v)) :
    m₀.brokenStarts (moves ++ [.call c]) = m₀.brokenStarts moves := by
  rw [brokenStarts_concat_of_reply hrun hstep rfl (lastCall_concat _ _ _), isBrokenStart_answer]
  rfl

theorem callsStartHook_of_calm (h : m'.producer.isStarting = false) :
    m.callsStartHook m' = false := by
  rw [callsStartHook, h]
  rfl

theorem hasBegun_of_calm (h : m.producer.isStarting = false) :
    m.hasBegun = (m.stage != .created) := by
  rw [hasBegun, h]
  rfl

theorem hasBegun_outOfOrder (idle : m.producer = .idle) (v : LifecycleViolation) :
    (m.outOfOrder v).hasBegun = m.hasBegun := by
  rw [hasBegun_of_calm (m := m) (by rw [idle]; rfl), hasBegun_of_calm rfl]
  rfl

theorem ne_created_after (c : Call α) (reply : Reply) :
    ((if isBrokenStart (c, reply) then c.due else c.due.after c reply) != .created) =
      !isBrokenStart (c, reply) := by
  cases c with
  | start =>
    cases reply with
    | panic => rfl
    | answer answer => cases answer <;> rfl
  | submit | finish => rfl

theorem hasBegun_of_busy {c : Call α} (hphase : m.producer.stage? = some c.during)
    (hduring : m.stage = c.during) : m.hasBegun = true := by
  cases c with
  | start =>
    rw [hasBegun, isStarting_iff.mpr hphase]
    rfl
  | submit | finish =>
    rw [hasBegun, hduring]
    exact Bool.or_true _

/-- The start hook is called once for the bundle, if it `hasBegun`, and once more for each panic. -/
theorem startHooks_step (hl : m₀.Lived moves m) (hrun : m₀.run moves = some m)
    (hstep : m.step move = some m') (hkept : move ≠ .abandon)
    (h : m₀.startHooks moves = m₀.brokenStarts moves + m.hasBegun.toNat) :
    m₀.startHooks (moves ++ [move]) =
      m₀.brokenStarts (moves ++ [move]) + m'.hasBegun.toNat := by
  have ht := transition_of_step hstep
  rw [startHooks, countSteps_concat hrun hstep, ← startHooks, h]
  cases lifeStep ht hkept with
  | goesOn _ replies stage phase =>
    rw [brokenStarts_concat_of_silent hrun hstep replies, callsStartHook, hasBegun, hasBegun,
      isStarting_congr phase, stage, Bool.and_not_self]
    rfl
  | @refused c v call idle wrong same =>
    subst call same
    rw [brokenStarts_concat_of_refused hrun hstep, callsStartHook_of_calm rfl,
      hasBegun_outOfOrder idle]
    rfl
  | @begins c call idle due replies stage phase =>
    subst call
    rw [brokenStarts_concat_of_silent hrun hstep replies, hasBegun_of_busy phase stage,
      hasBegun_of_calm (by rw [idle]; rfl), due]
    cases c with
    | start =>
      have hcalls : m.callsStartHook m' = true := by
        rw [callsStartHook, isStarting_iff.mpr phase, idle]
        rfl
      rw [hcalls]
      rfl
    | submit | finish =>
      rw [callsStartHook_of_calm (isStarting_eq_false phase (by simp [Call.during]))]
      rfl
  | @ends reply own replies idle accepted stage =>
    subst own
    obtain ⟨c, hlast, -, hphase, hduring⟩ := hl.orderly.own_call ht
    have hcalm : m'.producer.isStarting = false := by rw [idle]; rfl
    rw [brokenStarts_concat_of_reply hrun hstep replies hlast,
      callsStartHook_of_calm hcalm, hasBegun_of_busy hphase hduring, hasBegun_of_calm hcalm,
      stage c hduring hphase, ne_created_after]
    cases isBrokenStart (c, reply) <;> rfl

/-! ## A bundle that is started again -/

/-- A `start` was called after one whose hook had panicked (`brokenStarts`). -/
def Restarted (m₀ : Machine α) (moves : List (Move α)) : Prop :=
  ∃ before later, moves = before ++ .call .start :: later ∧ 0 < m₀.brokenStarts before

theorem not_restarted_nil (m₀ : Machine α) : ¬ m₀.Restarted [] := by
  rintro ⟨before, later, hsplit, -⟩
  exact absurd hsplit.symm (by simp)

theorem restarted_concat :
    m₀.Restarted (moves ++ [move]) ↔
      m₀.Restarted moves ∨ move = .call .start ∧ 0 < m₀.brokenStarts moves := by
  constructor
  · rintro ⟨before, later, hsplit, hpos⟩
    rcases cut_of_concat hsplit with ⟨rfl, rfl⟩ | ⟨later', rfl⟩
    · exact Or.inr ⟨rfl, hpos⟩
    · exact Or.inl ⟨before, later', rfl, hpos⟩
  · rintro (⟨before, later, rfl, hpos⟩ | ⟨rfl, hpos⟩)
    · exact ⟨before, later ++ [move], by simp, hpos⟩
    · exact ⟨moves, [], rfl, hpos⟩

/-- A call of `start` is accepted where no start hook has run or the last one has panicked, so one
that comes after a panic makes the second call of the hook, or finds it made. -/
theorem restarted_step (hl : m₀.Lived moves m) (hrun : m₀.run moves = some m)
    (hstep : m.step move = some m') (hkept : move ≠ .abandon)
    (hcount : m₀.startHooks moves = m₀.brokenStarts moves + m.hasBegun.toNat)
    (h : m₀.Restarted moves ↔ 1 < m₀.startHooks moves) :
    m₀.Restarted (moves ++ [move]) ↔ 1 < m₀.startHooks (moves ++ [move]) := by
  have ht := transition_of_step hstep
  have hcount' := startHooks_step hl hrun hstep hkept hcount
  rw [restarted_concat, h]
  -- A step that is no start calls no start hook.
  have hother (hmove : move ≠ .call .start) (hcalls : m.callsStartHook m' = false) :
      (1 < m₀.startHooks moves ∨ move = .call .start ∧ 0 < m₀.brokenStarts moves) ↔
        1 < m₀.startHooks (moves ++ [move]) := by
    rw [startHooks, startHooks, countSteps_concat hrun hstep, hcalls]
    exact or_iff_left fun hstart => hmove hstart.1
  cases lifeStep ht hkept with
  | goesOn silent _ _ phase =>
    refine hother (fun hmove => by rw [hmove] at silent; cases silent) ?_
    rw [callsStartHook, isStarting_congr phase, Bool.and_not_self]
  | @refused c v call idle wrong same =>
    subst call same
    cases c with
    | start =>
      -- Refused, so the bundle has begun: the hook was called once for that, and once per panic.
      have hone : m.hasBegun = true := by
        rw [hasBegun_of_calm (by rw [idle]; rfl)]
        cases hs : m.stage <;> rw [hs] at wrong <;> first | rfl | cases wrong
      rw [hcount', brokenStarts_concat_of_refused hrun hstep, hasBegun_outOfOrder idle, hcount,
        hone]
      simp only [true_and, Bool.toNat_true]
      omega
    | submit | finish => exact hother (by simp) (callsStartHook_of_calm rfl)
  | @begins c call idle due replies stage phase =>
    subst call
    have hbroken := brokenStarts_concat_of_silent hrun hstep replies
    cases c with
    | start =>
      rw [hcount', hbroken, hcount, hasBegun_of_busy phase stage,
        hasBegun_of_calm (by rw [idle]; rfl), due]
      simp only [Call.due, true_and, bne_self_eq_false, Bool.toNat_true, Bool.toNat_false]
      omega
    | submit | finish =>
      have hcalm : m'.producer.isStarting = false :=
        isStarting_eq_false phase (by simp [Call.during])
      exact hother (by simp) (callsStartHook_of_calm hcalm)
  | ends own _ idle =>
    subst own
    exact hother nofun (callsStartHook_of_calm (by rw [idle]; rfl))

/-- The automaton `Stage.after` is right about the run: it was refused what is out of order and
nothing else, and the start hook was called once at most. -/
structure KeepsOrder (m₀ : Machine α) (moves : List (Move α)) : Prop where
  refused : ∀ earlier c reply later, m₀.exchanges moves = earlier ++ (c, reply) :: later →
    (reply.violation? = none ↔ Stage.created.afterAll earlier = c.due)
  started : m₀.startHooks moves ≤ 1

/-- How a bundle stands that was not `Restarted`. Once its start hook has panicked it stands as it
was created, and is never called but out of order, so it does as well as a finished one. -/
structure BegunOnce (m₀ : Machine α) (moves : List (Move α)) (m : Machine α) : Prop where
  refused : ∀ earlier e later, m₀.exchanges moves = earlier ++ e :: later →
    (e.2.violation? = none ↔ Stage.created.afterAll earlier = e.1.due)
  stands : m₀.brokenStarts moves = 0 ∨
    Stage.created.afterAll (m₀.exchanges moves) = .finished ∧ m.stage = .created ∧
      m.producer = .idle

/-- A call that is refused was out of order for the automaton as well, although that may be past the
stage at which the engine stands. -/
theorem BegunOnce.not_due (h : m₀.BegunOnce moves m) (hl : m₀.Lived moves m)
    (idle : m.producer = .idle) {c : Call α} {v : LifecycleViolation}
    (wrong : c.violation? m.stage = some v) :
    Stage.created.afterAll (m₀.exchanges moves) ≠ c.due := by
  rcases h.stands with hnone | ⟨hend, -, -⟩
  · have hstage := hl.stage idle
    rw [noticed_eq_self hnone] at hstage
    intro hdue
    rw [← hstage, hdue, (c.violation?_eq_none_iff _).mpr rfl] at wrong
    cases wrong
  · rw [hend]
    exact c.due_ne_finished.symm

theorem BegunOnce.step (h : m₀.BegunOnce moves m) (hl : m₀.Lived moves m)
    (hrun : m₀.run moves = some m) (hstep : m.step move = some m') (hkept : move ≠ .abandon)
    (honce : ¬ m₀.Restarted (moves ++ [move])) : m₀.BegunOnce (moves ++ [move]) m' := by
  have ht := transition_of_step hstep
  cases lifeStep ht hkept with
  | goesOn _ replies stage phase =>
    have hexchanges := exchanges_concat_of_silent hrun hstep replies
    refine ⟨?_, ?_⟩
    · rw [hexchanges]
      exact h.refused
    · rw [brokenStarts_concat_of_silent hrun hstep replies, hexchanges, stage]
      refine h.stands.imp_right fun ⟨hend, hs, hidle⟩ => ⟨hend, hs, Run.idle_of_stage? ?_⟩
      rw [phase, hidle]
      rfl
  | @refused c v call idle wrong same =>
    subst call same
    have hexchanges := exchanges_concat_of_refused hrun hstep
    refine ⟨forall_cut_concat hexchanges h.refused
      (iff_of_false (Option.some_ne_none v) (h.not_due hl idle wrong)), ?_⟩
    rw [brokenStarts_concat_of_refused hrun hstep, hexchanges, Stage.afterAll_concat]
    refine h.stands.imp_right fun ⟨hend, hs, _⟩ => ⟨?_, hs, rfl⟩
    rw [hend]
    rfl
  | @begins c call idle due replies stage phase =>
    subst call
    have hexchanges := exchanges_concat_of_silent hrun hstep replies
    refine ⟨?_, Or.inl ?_⟩
    · rw [hexchanges]
      exact h.refused
    · rw [brokenStarts_concat_of_silent hrun hstep replies]
      refine h.stands.resolve_right fun ⟨hend, hs, _⟩ => honce (restarted_concat.mpr (Or.inr ?_))
      -- The only call that is due now is a start, and the automaton is past it.
      rw [hs] at due
      cases c with
      | start =>
        refine ⟨rfl, Nat.pos_of_ne_zero fun hnone => ?_⟩
        have hstage := hl.stage idle
        rw [noticed_eq_self hnone, hend, hs] at hstage
        cases hstage
      | submit | finish => cases due
  | @ends reply own replies idle accepted stage =>
    subst own
    obtain ⟨c, hlast, hbusy, hphase, hduring⟩ := hl.orderly.own_call ht
    have hexchanges := exchanges_concat_of_reply hrun hstep replies hlast
    have hnone := h.stands.resolve_right fun hstands => hbusy hstands.2.2
    have hdue := hl.busy c hbusy ((lastCall_concat _ _ _).symm.trans hlast)
    rw [noticed_eq_self hnone] at hdue
    refine ⟨forall_cut_concat hexchanges h.refused (iff_of_true accepted hdue), ?_⟩
    rw [brokenStarts_concat_of_reply hrun hstep replies hlast, hnone, hexchanges,
      Stage.afterAll_concat, hdue, stage c hduring hphase]
    cases hbroken : isBrokenStart (c, reply) with
    | false => exact Or.inl rfl
    | true =>
      cases c with
      | start =>
        cases reply with
        | panic => exact Or.inr ⟨rfl, rfl, idle⟩
        | answer => cases hbroken
      | submit | finish => cases hbroken

theorem started_of_finishHook (hl : m₀.Lived moves m) (ht : Transition m move m')
    (hkept : move ≠ .abandon) (hcalls : m.callsFinishHook m' = true) :
    (.start, .answer (.ok ())) ∈ m₀.exchanges moves := by
  have hfinishing : m'.producer.isFinishing = true := (Bool.and_eq_true_iff.mp hcalls).1
  have hphase : m'.producer.stage? = some .finished := by
    cases hp : m'.producer <;> rw [hp] at hfinishing <;> first | rfl | cases hfinishing
  suffices hstarted : Stage.created.afterAll (noticed (m₀.exchanges moves)) = .started from
    List.mem_of_mem_filter (start_mem_of_started hstarted)
  cases lifeStep ht hkept with
  | goesOn _ _ _ phase =>
    have hbusy : m.producer ≠ .idle := fun hp => by
      rw [hp, hphase] at phase
      cases phase
    obtain ⟨c, hcurrent, hduring, -⟩ := hl.orderly.call_of_busy hbusy
    rw [hl.busy c hbusy hcurrent]
    rw [← phase, hphase] at hduring
    cases c <;> first | rfl | cases hduring
  | @begins c _ idle due _ _ phase =>
    rw [hl.stage idle, due]
    rw [hphase] at phase
    cases c <;> first | rfl | cases phase
  | refused _ _ _ same =>
    rw [same] at hphase
    cases hphase
  | ends _ _ idle =>
    rw [idle] at hphase
    cases hphase

/-! ## Elements are processed once -/

/-- Does this worker begin with its element between these states? It is told by `atWork`, which a
worker enters only from the queue. -/
def beginsElement (n : Nat) (m m' : Machine α) : Bool :=
  (atWork m.workers)[n]? != some true && (atWork m'.workers)[n]? == some true

def processings (m : Machine α) (moves : List (Move α)) (n : Nat) : Nat :=
  m.countSteps (beginsElement n) moves

/-- Has the worker left the queue, be it to begin or because its task was dropped? Nobody comes back
to it, so this bounds `processings`. -/
def leftQueue (n : Nat) (m : Machine α) : Bool :=
  match m.workers[n]? with
  | some ⟨_, .queued⟩ | none => false
  | some _ => true

theorem leftQueue_of_queued {n : Nat} {w : Worker α} (hw : m.workers[n]? = some w)
    (phase : w.phase = .queued) : leftQueue n m = false := by
  obtain ⟨item, _⟩ := w
  subst phase
  rw [leftQueue, hw]

theorem atWork_getElem? (m : Machine α) (n : Nat) :
    (atWork m.workers)[n]? = m.workers[n]?.map fun w => w.phase.isWorking := by
  rw [atWork, marks, List.getElem?_map]

theorem beginsElement_of_eq {n : Nat} (h : m'.workers[n]? = m.workers[n]?) :
    beginsElement n m m' = false ∧ leftQueue n m' = leftQueue n m := by
  refine ⟨?_, by rw [leftQueue, h]; rfl⟩
  rw [beginsElement, atWork_getElem?, atWork_getElem?, h]
  cases m.workers[n]?.map fun w => w.phase.isWorking with
  | none => rfl
  | some b => cases b <;> rfl

inductive QueueStep (m m' : Machine α) (move : Move α) (n : Nat) : Prop
  | same (begins : beginsElement n m m' = false) (left : leftQueue n m' = leftQueue n m)
  | begins {w : Worker α} (worker : m.workers[n]? = some w) (phase : w.phase = .queued)
      (begins : beginsElement n m m' = true) (left : leftQueue n m' = true)
  | dropped (queued : leftQueue n m = false) (begins : beginsElement n m m' = false)
      (dropped : move = .drop n ∨ move = .producer ∧ m.producer = .dropping n)

theorem queueStep (h : Transition m move m') (n : Nat) : QueueStep m m' move n := by
  have hsame (heq : m'.workers[n]? = m.workers[n]?) : QueueStep m m' move n := by
    obtain ⟨hbegins, hleft⟩ := beginsElement_of_eq heq
    exact .same hbegins hleft
  cases workersStep h with
  | same workers => exact hsame (by rw [workers])
  | @more item _ workers =>
    by_cases hn : n = m.workers.length
    · -- The new worker is in the queue.
      have hold : m.workers[n]? = none := by rw [hn]; exact List.getElem?_eq_none (Nat.le_refl _)
      have hnew : m'.workers[n]? = some ⟨item, .queued⟩ := by
        rw [workers, hn]
        exact List.getElem?_concat_length
      refine .same ?_ (by rw [leftQueue, leftQueue, hold, hnew])
      rw [beginsElement, atWork_getElem?, atWork_getElem?, hold, hnew]
      rfl
    · refine hsame ?_
      rw [workers]
      by_cases hlt : n < m.workers.length
      · exact List.getElem?_append_left hlt
      · have hle : (m.workers ++ [(⟨item, .queued⟩ : Worker α)]).length ≤ n := by
          rw [List.length_append, List.length_singleton]
          omega
        rw [List.getElem?_eq_none hle, List.getElem?_eq_none (Nat.le_of_not_lt hlt)]
  | @change k w p worker workers how =>
    by_cases hn : n = k
    · subst hn
      have hnew : m'.workers[n]? = some { w with phase := p } := by
        rw [workers]
        exact setPhase_self worker p
      obtain ⟨item, phase⟩ := w
      have hbegins : beginsElement n m m' = (!phase.isWorking && p.isWorking) := by
        rw [beginsElement, atWork_getElem?, atWork_getElem?, worker, hnew]
        cases phase <;> cases p <;> rfl
      cases how with
      | begin => exact .begins worker rfl hbegins (by rw [leftQueue, hnew])
      | unstarted dropped =>
        exact .dropped (by rw [leftQueue, worker]) hbegins dropped
      | _ => exact .same hbegins (by rw [leftQueue, leftQueue, worker, hnew])
    · refine hsame ?_
      rw [workers]
      exact setPhase_other hn p

theorem beginsElement_step (h : Transition m move m') (n : Nat) :
    (leftQueue n m).toNat + (beginsElement n m m').toNat ≤ (leftQueue n m').toNat := by
  cases queueStep h n with
  | same begins left =>
    rw [begins, left]
    exact Nat.le_refl _
  | begins worker phase begins left =>
    rw [leftQueue_of_queued worker phase, begins, left]
    exact Nat.le_refl _
  | dropped queued begins =>
    rw [queued, begins]
    exact Nat.zero_le _

theorem processings_le {m₀ : Machine α} (hrun : m₀.run moves = some m) (n : Nat) :
    m₀.processings moves n ≤ (leftQueue n m).toNat := by
  refine run_induction (Q := fun moves m => m₀.processings moves n ≤ (leftQueue n m).toNat)
    (Nat.zero_le _) ?_ hrun
  intro moves m m' move hrun ih hstep
  rw [processings, countSteps_concat hrun hstep]
  have hstep' := beginsElement_step (transition_of_step hstep) n
  rw [processings] at ih
  omega

theorem items_of_step (hord : m.Orderly current) (h : Transition m move m') :
    m'.items = m.items ∨ ∃ item, m.stage = .started ∧ m.producer = .handing item ∧
      current = some (.submit item) ∧ m'.items = m.items ++ [item] := by
  by_cases hhanding : ∃ item, m.producer = .handing item
  · obtain ⟨item, hp⟩ := hhanding
    rcases handing_step h hp with hsame | rfl
    · exact Or.inl hsame.items
    · have hserves := hord.serves
      rw [hp] at hserves
      exact Or.inr ⟨item, hord.stage _ (by rw [hp]; rfl), hp, hserves, m.items_hand item⟩
  · exact Or.inl (items_step h fun item hp => hhanding ⟨item, hp⟩)

/-! ## The whole run -/

/-- A call that is out of order (`Call.due`) is refused, and leaves the engine as it was but for the
reply. The code answers before it touches anything. -/
theorem refused_of_not_due (idle : m.producer = .idle) {c : Call α} (h : m.stage ≠ c.due) :
    ∃ v, c.violation? m.stage = some v ∧ m.step (.call c) =
      some { m with replies := m.replies ++ [.answer (.error (.lifecycle v))] } := by
  obtain ⟨v, hv⟩ := Option.ne_none_iff_exists'.mp (mt (c.violation?_eq_none_iff m.stage).mp h)
  refine ⟨v, hv, ?_⟩
  have hsame : m.outOfOrder v =
      { m with replies := m.replies ++ [.answer (.error (.lifecycle v))] } := by
    rw [outOfOrder, reply, endCall, ← idle]
  rw [step_call idle, ← hsame]
  unfold beginCall
  cases c <;> cases hs : m.stage <;> rw [hs] at hv <;> cases hv <;> rfl

section

variable {setup : Setup α} {scope : Scope}

theorem startHooks_eq (hrun : (Machine.new setup scope).run moves = some m)
    (hkept : .abandon ∉ moves) :
    (Machine.new setup scope).startHooks moves =
      (Machine.new setup scope).brokenStarts moves + m.hasBegun.toNat := by
  refine run_induction (Q := fun moves m => .abandon ∉ moves →
    (Machine.new setup scope).startHooks moves =
      (Machine.new setup scope).brokenStarts moves + m.hasBegun.toNat) (fun _ => rfl) ?_ hrun hkept
  intro moves m m' move hrun ih hstep hkept
  have hbefore : .abandon ∉ moves := fun hmem => hkept (List.mem_append_left _ hmem)
  exact startHooks_step (lived hrun hbefore) hrun hstep
    (fun heq => hkept (heq ▸ List.mem_concat_self)) (ih hbefore)

theorem restarted_iff (hrun : (Machine.new setup scope).run moves = some m)
    (hkept : .abandon ∉ moves) :
    (Machine.new setup scope).Restarted moves ↔
      1 < (Machine.new setup scope).startHooks moves := by
  refine run_induction (Q := fun moves _ => .abandon ∉ moves →
    ((Machine.new setup scope).Restarted moves ↔
      1 < (Machine.new setup scope).startHooks moves))
    (fun _ => iff_of_false (not_restarted_nil _) nofun) ?_ hrun hkept
  intro moves m m' move hrun ih hstep hkept
  have hbefore : .abandon ∉ moves := fun hmem => hkept (List.mem_append_left _ hmem)
  exact restarted_step (lived hrun hbefore) hrun hstep
    (fun heq => hkept (heq ▸ List.mem_concat_self)) (startHooks_eq hrun hbefore) (ih hbefore)

theorem begunOnce (hrun : (Machine.new setup scope).run moves = some m)
    (hkept : .abandon ∉ moves) (honce : ¬ (Machine.new setup scope).Restarted moves) :
    (Machine.new setup scope).BegunOnce moves m := by
  refine run_induction (Q := fun moves m => .abandon ∉ moves →
    ¬ (Machine.new setup scope).Restarted moves →
      (Machine.new setup scope).BegunOnce moves m) (fun _ _ => ⟨?_, Or.inl rfl⟩) ?_
      hrun hkept honce
  · intro earlier e later h
    cases earlier <;> cases h
  · intro moves m m' move hrun ih hstep hkept honce
    have hbefore : .abandon ∉ moves := fun hmem => hkept (List.mem_append_left _ hmem)
    exact (ih hbefore fun h => honce (restarted_concat.mpr (Or.inl h))).step (lived hrun hbefore)
      hrun hstep (fun heq => hkept (heq ▸ List.mem_concat_self)) honce

/-- The automaton is right about just those runs that were not `Restarted`. -/
theorem keepsOrder_iff (hrun : (Machine.new setup scope).run moves = some m)
    (hkept : .abandon ∉ moves) :
    (Machine.new setup scope).KeepsOrder moves ↔ ¬ (Machine.new setup scope).Restarted moves := by
  have hiff := restarted_iff hrun hkept
  constructor
  · exact fun h hagain => absurd (hiff.mp hagain) (Nat.not_lt.mpr h.started)
  · exact fun honce =>
      ⟨fun earlier c reply later => (begunOnce hrun hkept honce).refused earlier (c, reply) later,
        Nat.not_lt.mp fun hlt => honce (hiff.mpr hlt)⟩

theorem started_of_finishHooks (hrun : (Machine.new setup scope).run moves = some m)
    (hkept : .abandon ∉ moves) (hcalls : 0 < (Machine.new setup scope).finishHooks moves) :
    (.start, .answer (.ok ())) ∈ (Machine.new setup scope).exchanges moves := by
  refine run_induction (Q := fun moves _ => .abandon ∉ moves →
    0 < (Machine.new setup scope).finishHooks moves →
      (.start, .answer (.ok ())) ∈ (Machine.new setup scope).exchanges moves)
    (fun _ hcalls => absurd hcalls (Nat.lt_irrefl 0)) ?_ hrun hkept hcalls
  intro moves m m' move hrun ih hstep hkept hcalls
  have hbefore : .abandon ∉ moves := fun hmem => hkept (List.mem_append_left _ hmem)
  rw [exchanges_concat hrun hstep]
  refine List.mem_append_left _ ?_
  rw [finishHooks_concat hrun hstep] at hcalls
  cases hcall : m.callsFinishHook m' with
  | true =>
    exact started_of_finishHook (lived hrun hbefore) (transition_of_step hstep)
      (fun heq => hkept (heq ▸ List.mem_concat_self)) hcall
  | false =>
    rw [hcall] at hcalls
    exact ih hbefore hcalls

/-- **The calls of a bundle come in order, unless it is started again after a panic.** In a run in
which no call is given up, the automaton `Stage.after` is right about every call that has ended, and
the start hook is called at most once, if and only if no start is called after one whose hook has
panicked.

In every such run, restarted or not, a call that has ended was refused just if it was out of order
at the stage at which the calls noticed before it had left the bundle, and they are right about the
stage at which the bundle is now. A call that is out of order leaves the engine as it was. The start
hook is called once for the bundle and once more for each panic; the finish hook is called at most
once, and only after a start that has succeeded. Items are handed over only by submissions, while
the bundle is started, and no element is processed twice, or without having been handed over. -/
theorem in_order_iff_not_restarted (hrun : (Machine.new setup scope).run moves = some m)
    (hkept : .abandon ∉ moves) :
    ((Machine.new setup scope).KeepsOrder moves ↔
      ¬ (Machine.new setup scope).Restarted moves) ∧
    (∀ earlier c reply later,
      (Machine.new setup scope).exchanges moves = earlier ++ (c, reply) :: later →
        reply.violation? = c.violation? (Stage.created.afterAll (noticed earlier))) ∧
    (m.producer = .idle →
      m.stage = Stage.created.afterAll (noticed ((Machine.new setup scope).exchanges moves))) ∧
    (∀ c, m.producer = .idle → m.stage ≠ c.due → ∃ v, c.violation? m.stage = some v ∧
      m.step (.call c) =
        some { m with replies := m.replies ++ [.answer (.error (.lifecycle v))] }) ∧
    (Machine.new setup scope).startHooks moves =
      (Machine.new setup scope).brokenStarts moves + m.hasBegun.toNat ∧
    (Machine.new setup scope).finishHooks moves ≤ 1 ∧
    (0 < (Machine.new setup scope).finishHooks moves →
      (.start, .answer (.ok ())) ∈ (Machine.new setup scope).exchanges moves) ∧
    (∀ move m', m.step move = some m' → m'.items = m.items ∨
      ∃ item, m.stage = .started ∧ m.producer = .handing item ∧
        lastCall none moves = some (.submit item) ∧ m'.items = m.items ++ [item]) ∧
    ∀ n, (Machine.new setup scope).processings moves n ≤ 1 ∧
      (0 < (Machine.new setup scope).processings moves n → n < m.items.length) := by
  have hl := lived hrun hkept
  refine ⟨keepsOrder_iff hrun hkept,
    fun earlier c reply later => hl.refused earlier (c, reply) later, fun idle => (hl.stage idle).symm,
    fun c idle hdue => refused_of_not_due idle hdue, startHooks_eq hrun hkept,
    (drains hrun).hooks.le_one, started_of_finishHooks hrun hkept,
    fun move m' hstep => items_of_step hl.orderly (transition_of_step hstep), fun n => ?_⟩
  have hle := processings_le hrun n
  refine ⟨hle.trans (Bool.toNat_le _), fun hpos => ?_⟩
  -- A worker that has left the queue is there.
  have hleft : leftQueue n m = true := by
    cases hleft : leftQueue n m with
    | true => rfl
    | false =>
      rw [hleft] at hle
      exact absurd hle (Nat.not_le.mpr hpos)
  rw [items, List.length_map]
  refine Nat.lt_of_not_le fun hlen => ?_
  rw [leftQueue, List.getElem?_eq_none hlen] at hleft
  cases hleft

end

/-- Calls in the wrong places around the start and the finish of an empty bundle. -/
def restlessMoves : List (Move Nat) :=
  [.call .finish, .call .start, .producer, .call .start, .call .finish,
    .producer, .producer, .producer, .call .start]

theorem in_order_iff_not_restarted_restless :
    ∃ m, (Machine.new soloSetup).run restlessMoves = some m ∧ m.stage = .finished ∧
      ((Machine.new soloSetup).exchanges restlessMoves).map (·.2.violation?) =
        [some .finishBeforeStart, none, some .startWhileRunning, none, some .startAfterFinish] ∧
      (Machine.new soloSetup).KeepsOrder restlessMoves ∧
      (Machine.new soloSetup).finishHooks restlessMoves ≤ 1 := by
  have hsome : ((Machine.new soloSetup).run restlessMoves).isSome = true := by decide +kernel
  have hphase : ((Machine.new soloSetup).run restlessMoves).bind (·.producer.stage?) = none := by
    decide +kernel
  have hcalled : ((Machine.new soloSetup).exchanges restlessMoves).map (·.2.violation?) =
      [some .finishBeforeStart, none, some .startWhileRunning, none, some .startAfterFinish] := by
    decide +kernel
  have hended : Stage.created.afterAll
      (noticed ((Machine.new soloSetup).exchanges restlessMoves)) = .finished := by decide +kernel
  have hhooks : (Machine.new soloSetup).startHooks restlessMoves = 1 := by decide +kernel
  obtain ⟨m, hrun⟩ := Option.isSome_iff_exists.mp hsome
  rw [hrun] at hphase
  have hkept : .abandon ∉ restlessMoves := by simp [restlessMoves]
  have honce : ¬ (Machine.new soloSetup).Restarted restlessMoves := by
    rw [restarted_iff hrun hkept, hhooks]
    exact Nat.lt_irrefl 1
  obtain ⟨hiff, -, hstage, -, -, hfinishes, -⟩ := in_order_iff_not_restarted hrun hkept
  exact ⟨m, hrun, (hstage (Run.idle_of_stage? hphase)).trans hended, hcalled, hiff.mpr honce,
    hfinishes⟩

/-- A bundle whose start hook panics. -/
def brittleSetup : Setup Nat where
  processor := { name := "brittle", startHook := [.panic] }
  parallelism := .standard

/-- It is started, and started again. -/
def brittleMoves : List (Move Nat) := [.call .start, .producer, .call .start, .producer]

/-- Every call has ended, none was given up, and the start hook was called twice: the second start
was not refused, although the first one has failed. -/
theorem start_hook_called_twice :
    .abandon ∉ brittleMoves ∧ ((Machine.new brittleSetup).run brittleMoves).isSome = true ∧
      (Machine.new brittleSetup).startHooks brittleMoves = 2 ∧
      ((Machine.new brittleSetup).exchanges brittleMoves).map (·.2) = [.panic, .panic] ∧
      ¬ (Machine.new brittleSetup).KeepsOrder brittleMoves := by
  have hhooks : (Machine.new brittleSetup).startHooks brittleMoves = 2 := by decide +kernel
  refine ⟨by simp [brittleMoves], by decide +kernel, hhooks, by decide +kernel, fun h => ?_⟩
  have hone := h.started
  rw [hhooks] at hone
  exact absurd hone (by decide)

end Machine

end WorkBundle
