import WorkBundle.Proofs.Regular
import WorkBundle.Proofs.Sequential

/-!
# Steps outside the work

Most steps of an engine are no work: somebody waits, a call goes on, a worker closes its task, the
clock moves. They leave alone what a bundle comes to (`Machine.SameWork`). With a backend that runs
every task, all that the producer does besides is to hand items over and to run the hooks.

A hook runs when nothing is in flight, so between two of its steps nobody touches the scope:
`Machine.hook_step` says that any step in the meantime carries out the next part of the hook, which
may be nothing, and that the call ends with the reply that the outcome of the hook calls for.
-/

set_option autoImplicit false

namespace WorkBundle

variable {α : Type}

namespace Machine

/-- No code has run, and no failure was made or captured. Most steps of a bundle are of this kind,
and whatever is stated of code alone is kept by them at once. -/
structure SameWork (m m' : Machine α) : Prop where
  setup : m'.setup = m.setup
  scope : m'.scope = m.scope
  arrivals : m'.arrivals = m.arrivals
  captured : m'.cell.captured = m.cell.captured
  minted : m'.minted = m.minted

theorem sameWork_beginCall (m : Machine α) (c : Call α) : m.SameWork (m.beginCall c) := by
  cases c
  all_goals
    unfold beginCall
    dsimp only
    split <;> exact ⟨rfl, rfl, rfl, rfl, rfl⟩

/-- The backend runs every task to its end, that is, `verdict` is `run` for each. Together with a
token that nobody cancels this is the setting of `Undisturbed`. -/
def RunsAll (m : Machine α) : Prop := ∀ n, m.verdict n = .run

theorem RunsAll.length_items {m : Machine α} (h : m.RunsAll) {all : List (WorkItem α)} {k : Nat}
    (hhanded : m.Handed all k) : m.items.length = k :=
  Nat.le_antisymm
    (Nat.not_lt.mp fun hlt => Nat.lt_irrefl _ ((hhanded.kept k hlt).mp (h k))) hhanded.bound

theorem sameWork_or_hand {m m' : Machine α} (h : ProducerStep m m') (hj : m.Judged m.producer)
    (hruns : m.RunsAll) (hhook : m.producer.hook? = none) :
    m.SameWork m' ∧ m'.workers = m.workers ∧
        (∀ item, m'.producer = .handing item → m.cell.captured = none) ∨
      ∃ item, m.producer = .handing item ∧ m' = m.hand item := by
  have hrefused {f : Failure} : ¬ m.IsRefusal f := fun hrefusal => by
    cases hrefusal.1.symm.trans (hruns f.item)
  cases h with
  | startOn phase | startEnd phase | finishOn phase | finishEnd phase =>
    rw [phase] at hhook
    cases hhook
  | ask phase =>
    unfold askTicket askGate
    split
    · exact Or.inl ⟨⟨rfl, rfl, rfl, rfl, rfl⟩, rfl, fun _ hp => by cases phase.symm.trans hp⟩
    all_goals exact Or.inl ⟨⟨rfl, rfl, rfl, rfl, rfl⟩, rfl, nofun⟩
  | check =>
    unfold check
    split
    · exact Or.inl ⟨⟨rfl, rfl, rfl, rfl, rfl⟩, rfl, nofun⟩
    · exact Or.inl ⟨⟨rfl, rfl, rfl, rfl, rfl⟩, rfl, fun _ _ => ‹_›⟩
  | @hand item phase => exact Or.inr ⟨item, phase, rfl⟩
  | keep => exact Or.inl ⟨⟨rfl, rfl, rfl, rfl, rfl⟩, rfl, nofun⟩
  | drain phase =>
    unfold askEverything askGate
    split
    · exact Or.inl ⟨⟨rfl, rfl, rfl, rfl, rfl⟩, rfl, fun _ hp => by cases phase.symm.trans hp⟩
    all_goals exact Or.inl ⟨⟨rfl, rfl, rfl, rfl, rfl⟩, rfl, nofun⟩
  | conclude =>
    unfold conclude
    split <;> exact Or.inl ⟨⟨rfl, rfl, rfl, rfl, rfl⟩, rfl, nofun⟩
  -- The backend would have to drop a task, or to refuse an item.
  | @dropPolled n _ _ _ _ verdict => exact absurd (hruns n) verdict
  | @dropQueued n _ phase =>
    rw [phase] at hj
    exact absurd (hruns n) hj
  | @answer n _ _ phase =>
    rcases phase with phase | ⟨-, verdict⟩
    · rw [phase] at hj
      exact absurd (hruns n) hj
    · exact absurd (hruns n) verdict
  | refusalCaptured phase | refusalLate phase =>
    rw [phase] at hj
    exact absurd hj hrefused
  | refusalCounted phase =>
    rw [phase] at hj
    exact absurd hj.1 hrefused

theorem captured_of_error {m m' : Machine α} {reply : Reply} (how : CallEnd m m' reply)
    (hstage : m.producer.stage? = some .started) (hopen : m.gate.cancelled = false)
    (hj : m.Judged m.producer) (hruns : m.RunsAll) {e : ExecutionError}
    (hreply : reply = .answer (.error e)) : ∃ f, m.cell.captured = some f ∧ e = f.toError := by
  have hrefused {f : Failure} : ¬ m.IsRefusal f := fun hrefusal => by
    cases hrefusal.1.symm.trans (hruns f.item)
  cases how with
  | tooLate _ full =>
    cases hreply
    exact ⟨_, full, rfl⟩
  | left | taken => cases hreply
  | cancelled cancelled => cases hopen.symm.trans cancelled
  | refused phase =>
    rw [phase] at hj
    exact absurd hj hrefused
  | outdone phase =>
    rw [phase] at hj
    exact absurd hj.1 hrefused
  | violation phase | startHook phase | failed phase | finishHook phase =>
    rw [phase] at hstage
    cases hstage

/-- A drain that nobody cancels waits until it is complete, and then goes by `Machine.conclude`,
which asks the cell whether the finish hook is to run. -/
theorem drain_step {m m' : Machine α} (h : ProducerStep m m') (hopen : m.gate.cancelled = false)
    (hp : m.producer = .draining ∨ m.producer = .drained) :
    (m'.producer = .draining ∨ m'.producer = .drained) ∧ m'.cell = m.cell ∨
      m.producer = .drained ∧ m' = m.conclude := by
  cases h with
  | drain phase =>
    refine Or.inl ?_
    unfold askEverything askGate
    split
    · exact ⟨Or.inl phase, rfl⟩
    · exact ⟨Or.inr rfl, rfl⟩
    · rename_i hask
      cases hopen.symm.trans (Gate.ask_error hask).1
  | conclude phase => exact Or.inr ⟨phase, rfl⟩
  | answer phase =>
    rcases phase with phase | ⟨phase, -⟩
    all_goals
      rw [phase] at hp
      rcases hp with hp | hp <;> cases hp
  | _ =>
    rename m.producer = _ => phase
    rw [phase] at hp
    rcases hp with hp | hp <;> cases hp

/-! ## When nothing is in flight -/

variable {m m' : Machine α} {move : Move α}

theorem calm_step (ht : Transition m move m') (hinner : move.isInner = true)
    (hproducer : move ≠ .producer) (hempty : inFlight m.workers = 0) : m.SameWork m' := by
  cases ht with
  | violation | start | submit | finish | abandonStart | abandonWait | abandonFinish | cancel =>
    cases hinner
  | producer => exact absurd rfl hproducer
  | worker hw hstep =>
    obtain ⟨e, hp⟩ := over_of_inFlight_zero hempty hw
    cases hstep with
    | @close e' phase =>
      obtain ⟨tally, log, heq⟩ := m.close_eq _ e'
      rw [heq]
      exact ⟨rfl, rfl, rfl, rfl, rfl⟩
    | begin phase | goOn phase | finish phase | offer phase | count phase | leave phase =>
      rw [phase] at hp
      rcases hp with hp | hp <;> cases hp
  | drop hw _ hstep =>
    obtain ⟨e, hp⟩ := over_of_inFlight_zero hempty hw
    cases hstep with
    | queued phase | working phase =>
      rw [phase] at hp
      rcases hp with hp | hp <;> cases hp
  | world => exact ⟨rfl, rfl, rfl, rfl, rfl⟩

/-- What a step makes of the call of a hook that has this much left: the call ends with the code, in
the same step, with the reply of `hookReply`. -/
def HookGoes (m m' : Machine α) (hook : Hook) : Progress α → Prop
  | .going a => m'.producer.hook? = some (hook, a) ∧ m'.replies = m.replies
  | .over outcome =>
    m'.producer = .idle ∧ m'.replies = m.replies ++ [m.setup.hookReply hook outcome]

structure SameFailures (m m' : Machine α) : Prop where
  setup : m'.setup = m.setup
  captured : m'.cell.captured = m.cell.captured
  minted : m'.minted = m.minted

/-- What one step leads to: it has put out the first part of the `Summary` that was ahead, and
`Ahead` holds of the rest. Simulations of a loop that runs to its end are proved with this, for the
loop itself takes no steps. -/
def Leads (m m' : Machine α) (Ahead : Summary α → Prop) (s : Summary α) : Prop :=
  ∃ out s', m'.output = m.output ++ out ∧ Ahead s' ∧ s = s'.after out

theorem leads_nothing {Ahead : Summary α → Prop} {s : Summary α}
    (harrivals : m'.arrivals = m.arrivals) (h : Ahead s) : Leads m m' Ahead s :=
  ⟨[], s, by rw [output, output, harrivals, List.append_nil], h, rfl⟩

theorem CarriesOut.congr {m₁ : Machine α} {owner : Owner α} {a : Activity α} {p : Progress α}
    (h : CarriesOut m m₁ owner a p) (harrivals : m'.arrivals = m₁.arrivals)
    (hscope : m'.scope = m₁.scope) : CarriesOut m m' owner a p := by
  obtain ⟨out, us, leaves, heffect⟩ := h
  refine ⟨out, us, ⟨?_, hscope.trans leaves.scope⟩, by rw [hscope]; exact heffect⟩
  rw [output, harrivals]
  exact leaves.output

theorem hook_carriesOut {m₁ : Machine α} {hook : Hook} {a : Activity α} {p : Progress α}
    (hact : m.act (.hook hook) a = (m₁, p)) : CarriesOut m m₁ (.hook hook) a p :=
  act_carriesOut hact (fun hfalse : false = true => nomatch hfalse) nofun

theorem hookGoes_of_producer {hook : Hook} {a : Activity α} (h : ProducerStep m m')
    (hp : m.producer.hook? = some (hook, a)) :
    ∃ m₁ p, m.act (.hook hook) a = (m₁, p) ∧ m.HookGoes m' hook p ∧
      m'.arrivals = m₁.arrivals ∧ m'.scope = m₁.scope ∧ m.SameFailures m' := by
  cases h with
  | startOn phase hact | finishOn phase hact =>
    rw [phase] at hp
    cases hp
    refine ⟨_, _, hact, ⟨rfl, ?_⟩, rfl, rfl, ?_⟩
    all_goals obtain ⟨_, _, _, _, _, _, rfl⟩ := act_eq hact
    · rfl
    · exact ⟨rfl, rfl, rfl⟩
  | @startEnd _ outcome _ phase hact | @finishEnd _ outcome _ phase hact =>
    rw [phase] at hp
    cases hp
    refine ⟨_, _, hact, ?_⟩
    obtain ⟨_, _, _, _, _, _, rfl⟩ := act_eq hact
    cases outcome <;> exact ⟨⟨rfl, rfl⟩, rfl, rfl, rfl, rfl, rfl⟩
  | answer phase =>
    rcases phase with phase | ⟨phase, -⟩
    all_goals
      rw [phase] at hp
      cases hp
  | _ =>
    rename m.producer = _ => phase
    rw [phase] at hp
    cases hp

theorem hookStep_of_producer {hook : Hook} {a : Activity α} (h : ProducerStep m m')
    (hp : m.producer.hook? = some (hook, a)) :
    m.SameFailures m' ∧ ∃ p, CarriesOut m m' (.hook hook) a p ∧ m.HookGoes m' hook p := by
  obtain ⟨m₁, p, hact, hgoes, harrivals, hscope, hsame⟩ := hookGoes_of_producer h hp
  exact ⟨hsame, p, (hook_carriesOut hact).congr harrivals hscope, hgoes⟩

/-- Whatever moves while a hook runs, the next part of the hook is carried out (`Leads`): nothing is
in flight then, so no worker can put anything out in between. -/
theorem hook_step {hook : Hook} {a : Activity α} (ht : Transition m move m')
    (hinner : move.isInner = true) (hempty : inFlight m.workers = 0)
    (hp : m.producer.hook? = some (hook, a)) :
    m.SameFailures m' ∧ ∃ p, CarriesOut m m' (.hook hook) a p ∧ m.HookGoes m' hook p := by
  by_cases hproducer : move = .producer
  · subst hproducer
    cases ht with
    | producer hstep => exact hookStep_of_producer hstep hp
    | world world => cases world
  · have hsame := calm_step ht hinner hproducer hempty
    have hcall := sameCall_of_inner ht hinner hproducer
    refine ⟨⟨hsame.setup, hsame.captured, hsame.minted⟩, .going a, ?_, ?_⟩
    · refine ⟨[], [], leaves_nothing ?_ hsame.scope, by rw [hsame.scope]; rfl⟩
      rw [output, output, hsame.arrivals]
    · exact ⟨by rw [hcall.producer]; exact hp, hcall.replies⟩

end Machine

namespace Run

/-! ## In a bundle -/

variable {m m' : Machine α} {move : Move α}

/-- The error of a submission is that of the captured failure. Only a refusal could give another,
and `RunsAll` excludes refusals. -/
def IsCaptured (m : Machine α) (e : ExecutionError) : Prop :=
  ∃ f, m.cell.captured = some f ∧ e = f.toError

theorem IsCaptured.step {e : ExecutionError} (h : IsCaptured m e)
    (ht : Machine.Transition m move m') : IsCaptured m' e := by
  obtain ⟨f, hf, he⟩ := h
  exact ⟨f, Machine.captured_step ht hf, he⟩

theorem sameWork_of_quiet (hq : m.Quiet) (ht : Machine.Transition m move m')
    (hinner : move.isInner = true) :
    Machine.SameCall m m' ∧ m.SameWork m' := by
  have hproducer := Machine.ne_producer_of_idle ht hq.idle
  have hcall := Machine.sameCall_of_inner ht hinner hproducer
  exact ⟨hcall, Machine.calm_step ht hinner hproducer hq.empty⟩

/-- A bundle at this point of its plan, on a backend that `RunsAll`. The fields are the invariants
that the simulations of whole bundles have in common. -/
structure Undisturbed (m : Machine α) (all : List (WorkItem α)) (plan : Plan α) : Prop where
  tickets : m.TicketsOk
  uncancelled : m.gate.cancelled = false
  follows : Follows m plan
  submitted : Submitted all m plan
  judged : m.Judged m.producer
  runs : m.RunsAll

theorem Regular.undisturbed {r : Run α} {all : List (WorkItem α)} (h : r.Regular all)
    (hruns : r.machine.RunsAll) : Undisturbed r.machine all r.plan :=
  ⟨h.sound.tickets, h.sound.uncancelled, h.sound.follows, h.submitted, h.judged, hruns⟩

namespace Undisturbed

variable {all : List (WorkItem α)}

theorem error_step {items : List (WorkItem α)} {e : ExecutionError}
    (h : Undisturbed m all (.feeding items)) (ht : Machine.Transition m move m')
    (hinner : move.isInner = true)
    (hcaptured : ∀ e, m.producer = .idle → m.replies.getLast? = some (.answer (.error e)) →
      IsCaptured m e)
    (idle' : m'.producer = .idle) (hlast : m'.replies.getLast? = some (.answer (.error e))) :
    IsCaptured m' e := by
  refine IsCaptured.step ?_ ht
  by_cases idle : m.producer = .idle
  · have hsame := Machine.sameCall_of_inner ht hinner (Machine.ne_producer_of_idle ht idle)
    exact hcaptured e idle (hsame.replies ▸ hlast)
  · cases Machine.callStep ht with
    | goesOn _ phase =>
      have hstage := (phase hinner).1
      rw [idle'] at hstage
      exact absurd (idle_of_stage? hstage.symm) idle
    | ends replies _ _ how =>
      rw [replies, List.getLast?_concat, Option.some.injEq] at hlast
      have hstage := h.follows.2.resolve_right fun hi => idle hi.1
      exact Machine.captured_of_error how hstage h.uncancelled h.judged h.runs hlast

variable {failed : Option ExecutionError}

theorem items_closing (h : Undisturbed m all (.closing failed))
    (ht : Machine.Transition m move m') : m'.items = m.items := by
  refine Machine.items_step ht fun item hp => ?_
  rcases h.follows.2 with hs | hquiet
  · rw [hp] at hs
    cases hs
  · cases hp.symm.trans hquiet.idle

/-- Nothing is in flight when the finish hook runs, by `TicketsOk`: the drain holds all tickets. -/
theorem empty_of_finishing (h : Undisturbed m all (.closing failed)) {a : Activity α}
    (hp : m.producer.hook? = some (.finish, a)) : Machine.inFlight m.workers = 0 := by
  refine h.tickets.inFlight_zero (Or.inr ?_)
  rcases Phase.of_hook? hp with ⟨hstart, -⟩ | ⟨-, hp⟩
  · cases hstart
  · rw [hp]
    rfl

theorem quiet_of_idle (h : Undisturbed m all (.closing failed)) (idle : m.producer = .idle) :
    m.Quiet :=
  h.follows.2.resolve_left fun hs => by rw [idle] at hs; cases hs

end Undisturbed

end Run

end WorkBundle
