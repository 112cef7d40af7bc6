import WorkBundle.Proofs.Hooks
import Mathlib.Algebra.GroupWithZero.Nat

/-!
# Work is finite

How many steps an engine can still take by itself, counted with a price for everything that is left
to do (`Run.work`). The price of an action is that of the emission it makes, for the element it is
made for; a call that stands in the line of the gate has one step less to take than one that does
not. Every step of the producer or of a worker costs something (`Machine.work_step`), and the world
around costs nothing. So a bundle can take no more steps than it has work at the beginning
(`Run.work_follow`), whatever its schedule.
-/

set_option autoImplicit false

namespace WorkBundle

variable {α : Type}

/-! ## The work of code -/

/-- Steps that an action takes, with those of the emission it makes. A `sleep` counts for the step
that ends it: no step passes the time. -/
def Action.work (intake : Intake α) (element : Option (Element α)) : Action α → Nat
  | .emit call =>
    match call.emission? (element.map (·.timestamp)) with
    | some e => (intake.deliver e).length + 3
    | none => 1
  | .report .. => intake.readingSteps + 3
  | .permit => 2
  | _ => 1

/-- Steps that a script takes, its end included. -/
def scriptWork (intake : Intake α) (element : Option (Element α)) : Script α → Nat
  | [] => 1
  | action :: rest => action.work intake element + scriptWork intake element rest

def Wait.work : Wait → Nat
  | .supply => 1
  | _ => 0

def Emitting.work (intake : Intake α) : Emitting α → Nat
  | .queued e => (intake.deliver e).length + 2
  | .writing steps => steps.length + 1

/-- Steps that code in progress still takes. -/
def Activity.work (intake : Intake α) (element : Option (Element α)) (a : Activity α) : Nat :=
  scriptWork intake element a.script + a.wait.work + (a.emitting.elim 0 (·.work intake))

def Progress.work (intake : Intake α) (element : Option (Element α)) : Progress α → Nat
  | .going a => a.work intake element
  | .over _ => 0

theorem scriptWork_pos (intake : Intake α) (element : Option (Element α)) (script : Script α) :
    0 < scriptWork intake element script := by
  induction script with
  | nil => exact Nat.one_pos
  | cons action rest ih => exact Nat.lt_of_lt_of_le ih (Nat.le_add_left _ _)

theorem Activity.work_pos (intake : Intake α) (element : Option (Element α)) (a : Activity α) :
    0 < a.work intake element := by
  have hpos := scriptWork_pos intake element a.script
  rw [work]
  omega

theorem Action.work_pos (intake : Intake α) (element : Option (Element α)) (action : Action α) :
    0 < action.work intake element := by
  cases action with
  | emit call =>
    simp only [work]
    split <;> omega
  | report => exact Nat.succ_pos _
  | permit => exact Nat.two_pos
  | _ => exact Nat.one_pos

namespace Machine

variable {m m' m₁ : Machine α} {owner : Owner α} {a : Activity α} {p : Progress α}

@[simp] theorem work_pause (m : Machine α) (ms : Nat) : (m.pause ms).work = 0 := by
  unfold pause
  split <;> rfl

theorem write_work {steps : List (Delivery α)} (h : m.write owner a steps = (m₁, p)) :
    p.work m.setup.intake owner.element? ≤
      scriptWork m.setup.intake owner.element? a.script + steps.length := by
  cases steps with
  | nil =>
    cases h
    exact Nat.le_refl _
  | cons d steps =>
    cases d with
    | crash =>
      cases h
      exact Nat.zero_le _
    | pause ms =>
      cases h
      simp [Progress.work, Activity.work, Emitting.work]
    | _ =>
      cases h
      exact Nat.le_refl _

theorem request_work {e : Emission (Output α)} (h : m.requestEmission owner a e = (m₁, p)) :
    p.work m.setup.intake owner.element? ≤
      scriptWork m.setup.intake owner.element? a.script + (m.setup.intake.deliver e).length + 2 := by
  cases owner with
  | hook =>
    cases h
    exact Nat.le_succ _
  | worker =>
    cases h
    exact Nat.le_refl _

theorem waitOf_work_lt (m : Machine α) (element : Option (Element α)) (action : Action α) :
    (m.waitOf action).work < action.work m.setup.intake element := by
  cases action with
  | sleep ms =>
    rw [waitOf, work_pause]
    exact Nat.one_pos
  | permit => exact Nat.one_lt_two
  | _ => exact Action.work_pos _ _ _

/-- An action costs what the emission it makes takes from here on, so its beginning is paid for. A
`report` does not know its emission yet, and `Intake.reading_le` bounds them all. -/
theorem deliver_lt_work (intake : Intake α) {element : Option (Element α)} {scope : Scope}
    {action : Action α} {e : Emission (Output α)} (h : action.does element scope = .ok (some e)) :
    (intake.deliver e).length + 2 < action.work intake element := by
  cases action with
  | emit call =>
    simp only [Action.does] at h
    split at h
    · rename_i e' he
      cases h
      simp only [Action.work, he]
      exact Nat.lt_succ_self _
    · cases h
  | report question named =>
    simp only [Action.does] at h
    split at h
    · cases h
    · rename_i time _
      split at h
      · rename_i r _
        cases h
        exact Nat.add_lt_add_of_le_of_lt (intake.reading_le r time) (Nat.lt_succ_self 2)
      · cases h
  | permit =>
    simp only [Action.does] at h
    split at h <;> cases h
  | _ => cases h

theorem performed_work {action : Action α} (ha : a.emitting = none)
    (h : Performed m owner a action m₁ p) :
    p.work m.setup.intake owner.element? <
      action.work m.setup.intake owner.element? +
        scriptWork m.setup.intake owner.element? a.script := by
  cases h with
  | requests does request =>
    have hle := request_work request
    have hlt := deliver_lt_work m.setup.intake does
    simp only at hle
    omega
  | goesOn =>
    have hwait := m.waitOf_work_lt owner.element? action
    simp only [Progress.work, Activity.work, ha, Option.elim]
    omega
  | ends | denied => exact Nat.add_pos_left (action.work_pos _ _) _

/-- Every step of code costs something, also one that only joins the line for the lock: it leaves
the code with another `wait`. -/
theorem act_work (h : m.act owner a = (m₁, p)) :
    p.work m.setup.intake owner.element? < a.work m.setup.intake owner.element? := by
  cases acted h with
  | granted queued | begins queued =>
    simp only [Progress.work, Activity.work, queued, Option.elim, Emitting.work, Wait.work]
    omega
  | writes writing write =>
    have hle := write_work write
    simp only [Activity.work, writing, Option.elim, Emitting.work] at hle ⊢
    omega
  | permitted idle wait =>
    simp only [Progress.work, Activity.work, idle, wait, Option.elim, Wait.work]
    omega
  | denied | returns => exact Activity.work_pos _ _ _
  | performs idle script performed =>
    have hlt := performed_work (by exact idle) performed
    rw [Activity.work, script, scriptWork]
    simp only at hlt
    omega

end Machine

/-! ## The work of an engine -/

/-- Steps that a worker still takes. The constants count the phases that are left on the longest way
to `ended`. -/
def Worker.work (intake : Intake α) (w : Worker α) : Nat :=
  match w.phase with
  | .queued => scriptWork intake (some w.item.toElement) w.item.script + 5
  | .working a => a.work intake (some w.item.toElement) + 4
  | .offering .. => 4
  | .counting .. => 3
  | .leaving _ => 2
  | .closing _ => 1
  | .ended _ => 0

def WorkItem.work (intake : Intake α) (item : WorkItem α) : Nat :=
  (Worker.mk item .queued).work intake + 8

def Setup.finishWork (s : Setup α) : Nat := scriptWork s.intake none s.processor.finishHook + 4

/-- Steps that a call still takes in this phase, with those of a worker it starts; `asked` says
whether it stands in the line of the gate, for to join the line is a step. -/
def Phase.work (s : Setup α) (asked : Bool) : Phase α → Nat
  | .idle => 0
  | .starting a | .finishing a => a.work s.intake none
  | .admitting item => item.work s.intake - asked.toNat
  | .checking item => item.work s.intake - 2
  | .handing item => item.work s.intake - 3
  | .polling _ => 4
  | .dropping _ => 3
  | .refused _ => 2
  | .outdone _ => 1
  | .draining => s.finishWork - asked.toNat
  | .drained => s.finishWork - 2

namespace Machine

def callWork (m : Machine α) : Nat := m.producer.work m.setup (m.gate.permits.claims ())

def workersWork (m : Machine α) : Nat := (m.workers.map (·.work m.setup.intake)).sum

def work (m : Machine α) : Nat := m.callWork + m.workersWork

variable {m m' m₁ : Machine α} {n : Nat} {w : Worker α}

theorem sum_map_modify {β : Type} {f : β → Nat} {g : β → β} {l : List β} {n : Nat} {b : β}
    (h : l[n]? = some b) : ((l.modify n g).map f).sum + f b = (l.map f).sum + f (g b) := by
  induction l generalizing n with
  | nil => exact absurd h (by simp)
  | cons a l ih =>
    cases n with
    | zero =>
      obtain rfl : a = b := by simpa using h
      simp only [List.modify_zero_cons, List.map_cons, List.sum_cons]
      omega
    | succ n =>
      have := ih (by simpa using h)
      simp only [List.modify_succ_cons, List.map_cons, List.sum_cons]
      omega

theorem workersWork_setPhase {q : WorkerPhase α}
    (hw : m.workers[n]? = some w) (hsetup : m'.setup = m.setup)
    (hworkers : m'.workers = (m.setPhase n q).workers) :
    m'.workersWork + w.work m.setup.intake =
      m.workersWork + ({ w with phase := q } : Worker α).work m.setup.intake := by
  rw [workersWork, hsetup, hworkers]
  exact sum_map_modify hw

theorem callWork_congr (hsetup : m'.setup = m.setup) (hproducer : m'.producer = m.producer)
    (hclaims : m'.gate.permits.claims () = m.gate.permits.claims ()) :
    m'.callWork = m.callWork := by
  rw [callWork, callWork, hsetup, hproducer, hclaims]

theorem work_of_worker {q : WorkerPhase α} (hw : m.workers[n]? = some w)
    (hworkers : m'.workers = (m.setPhase n q).workers) (hsetup : m'.setup = m.setup)
    (hproducer : m'.producer = m.producer)
    (hclaims : m'.gate.permits.claims () = m.gate.permits.claims ())
    (hless : ({ w with phase := q } : Worker α).work m.setup.intake < w.work m.setup.intake) :
    m'.work < m.work := by
  have hsum := workersWork_setPhase hw hsetup hworkers
  rw [work, work, callWork_congr hsetup hproducer hclaims]
  omega

theorem work_of_outcome (intake : Intake α) (item : WorkItem α) (n identity : Nat)
    (outcome : Outcome) : (Worker.mk item (outcome.phase n identity)).work intake ≤ 4 := by
  cases outcome <;> simp [Worker.work, Outcome.phase]

theorem worker_work (hw : m.workers[n]? = some w) (h : WorkerStep m n w m') : m'.work < m.work := by
  have hless {q q' : WorkerPhase α} (phase : w.phase = q)
      (hq : (Worker.mk w.item q').work m.setup.intake < (Worker.mk w.item q).work m.setup.intake) :
      ({ w with phase := q' } : Worker α).work m.setup.intake < w.work m.setup.intake := by
    rw [← phase] at hq
    exact hq
  cases h with
  | begin phase => exact work_of_worker hw rfl rfl rfl rfl (hless phase (Nat.lt_succ_self _))
  | goOn phase _ hact =>
    have hcost := act_work hact
    obtain ⟨_, _, _, _, _, _, rfl⟩ := act_eq hact
    exact work_of_worker hw rfl rfl rfl rfl (hless phase (Nat.add_lt_add_right hcost 4))
  | @finish a outcome m₁ phase _ hact =>
    obtain ⟨tally, minted, -, heq⟩ := m₁.workEnded_eq n outcome
    have hend := work_of_outcome m.setup.intake w.item n m₁.minted outcome
    have hpos := a.work_pos m.setup.intake (some w.item.toElement)
    have hcost : (Worker.mk w.item (outcome.phase n m₁.minted)).work m.setup.intake <
        (Worker.mk w.item (.working a)).work m.setup.intake :=
      Nat.lt_of_le_of_lt hend (Nat.lt_add_of_pos_left hpos)
    rw [heq]
    obtain ⟨_, _, _, _, _, _, rfl⟩ := act_eq hact
    exact work_of_worker hw rfl rfl rfl rfl (hless phase hcost)
  | @offer f e phase =>
    rcases m.offer_cases n f e with ⟨-, heq⟩ | ⟨_, -, heq⟩
    · rw [heq]
      exact work_of_worker hw rfl rfl rfl rfl (hless phase (by simp [Worker.work]))
    · rw [heq]
      exact work_of_worker hw rfl rfl rfl rfl (hless phase (by simp [Worker.work]))
  | count phase => exact work_of_worker hw rfl rfl rfl rfl (hless phase (by simp [Worker.work]))
  | leave phase =>
    have hclaims : (m.gate.release 1).permits.claims () = m.gate.permits.claims () :=
      m.gate.permits.claims_release 1 ()
    exact work_of_worker hw rfl rfl rfl hclaims (hless phase (by simp [Worker.work]))
  | @close e phase =>
    obtain ⟨tally, log, heq⟩ := m.close_eq n e
    rw [heq]
    exact work_of_worker hw rfl rfl rfl rfl (hless phase (by simp [Worker.work]))

theorem work_of_call {p p' : Phase α} (phase : m.producer = p) (phase' : m'.producer = p')
    (hsetup : m'.setup = m.setup) (hworkers : m'.workersWork ≤ m.workersWork)
    (hless : p'.work m.setup (m'.gate.permits.claims ()) <
      p.work m.setup (m.gate.permits.claims ())) : m'.work < m.work := by
  rw [work, work, callWork, callWork, phase, phase', hsetup]
  omega

theorem work_of_end {p : Phase α} (phase : m.producer = p) (idle : m'.producer = .idle)
    (hsetup : m'.setup = m.setup) (hworkers : m'.workersWork ≤ m.workersWork)
    (hpos : 0 < p.work m.setup (m.gate.permits.claims ())) : m'.work < m.work :=
  work_of_call phase idle hsetup hworkers hpos

theorem workersWork_enlist (m : Machine α) (item : WorkItem α) :
    (m.enlist item).workersWork = m.workersWork + (Worker.mk item .queued).work m.setup.intake := by
  show ((m.workers ++ [_]).map _).sum = _
  rw [List.map_append, List.sum_append]
  rfl

theorem work_of_item (intake : Intake α) (item : WorkItem α) : 13 ≤ item.work intake :=
  Nat.le_add_left 13 _

/-! ## Steps of the call in progress -/

/-- Asking the gate costs something: a call that goes on waiting has joined the line, one that has
what it asked for goes on to `granted`, and one that is turned away is over. -/
theorem askGate_work {p granted : Phase α} {r : GateRequest} (phase : m.producer = p)
    (hready : m.gate.isReady () = true)
    (hjoin : p.work m.setup true < p.work m.setup false)
    (hgranted : ∀ asked asked', granted.work m.setup asked < p.work m.setup asked') :
    (m.askGate r granted).work < m.work := by
  unfold askGate
  split
  · rename_i hask
    obtain ⟨hold, hnew⟩ := Gate.claims_of_ask_waits hready hask
    refine work_of_call phase phase rfl (Nat.le_refl _) ?_
    rw [hold, hnew]
    exact hjoin
  · exact work_of_call phase rfl rfl (Nat.le_refl _) (hgranted _ _)
  · exact work_of_end phase rfl rfl (Nat.le_refl _) (Nat.zero_lt_of_lt (hgranted false _))

theorem askTicket_work {item : WorkItem α} (phase : m.producer = .admitting item)
    (hready : m.gate.isReady () = true) : (m.askTicket item).work < m.work := by
  have hitem := work_of_item m.setup.intake item
  refine askGate_work phase hready ?_ fun asked asked' => ?_
  · simp only [Phase.work, Bool.toNat_true, Bool.toNat_false]
    omega
  · have hasked := asked'.toNat_le
    simp only [Phase.work]
    omega

theorem askEverything_work (phase : m.producer = .draining) (hready : m.gate.isReady () = true) :
    m.askEverything.work < m.work := by
  refine askGate_work phase hready ?_ fun asked asked' => ?_
  · simp only [Phase.work, Setup.finishWork, Bool.toNat_true, Bool.toNat_false]
    omega
  · have hasked := asked'.toNat_le
    simp only [Phase.work, Setup.finishWork]
    omega

theorem check_work {item : WorkItem α} (phase : m.producer = .checking item) :
    (m.check item).work < m.work := by
  have hitem := work_of_item m.setup.intake item
  unfold check
  split
  · refine work_of_end phase rfl rfl (Nat.le_refl _) ?_
    simp only [Phase.work]
    omega
  · refine work_of_call phase rfl rfl (Nat.le_refl _) ?_
    simp only [Phase.work]
    omega

theorem hand_work {item : WorkItem α} (phase : m.producer = .handing item) :
    (m.hand item).work < m.work := by
  have hworkers := m.workersWork_enlist item
  have hcall : m.work = (Worker.mk item .queued).work m.setup.intake + 5 + m.workersWork := by
    rw [work, callWork, phase]
    rfl
  rw [hcall]
  rcases m.hand_cases item with ⟨-, heq⟩ | ⟨-, heq⟩ | ⟨-, -, heq⟩
  · rw [heq]
    show 4 + (m.enlist item).workersWork < _
    omega
  · rw [heq]
    show 0 + (m.enlist item).workersWork < _
    omega
  · rw [heq]
    show 3 + (m.enlist item).workersWork < _
    omega

theorem workersWork_setPhase_le {q : WorkerPhase α} (hw : m.workers[n]? = some w)
    (hle : (Worker.mk w.item q).work m.setup.intake ≤ w.work m.setup.intake) :
    (m.setPhase n q).workersWork ≤ m.workersWork := by
  have hsum : (m.setPhase n q).workersWork + w.work m.setup.intake =
      m.workersWork + (Worker.mk w.item q).work m.setup.intake := workersWork_setPhase hw rfl rfl
  omega

/-- Every step of the call in progress costs something. The gate has to be ready for it (`isReady`):
a call that asks in vain makes no step at all. -/
theorem producer_work (h : ProducerStep m m')
    (hready : ∀ r, m.producer.request? = some r → m.gate.isReady () = true) : m'.work < m.work := by
  cases h with
  | startOn phase hact | finishOn phase hact =>
    have hcost := act_work hact
    obtain ⟨_, _, _, _, _, _, rfl⟩ := act_eq hact
    exact work_of_call phase rfl rfl (Nat.le_refl _) hcost
  | @startEnd a outcome _ phase hact | @finishEnd a outcome _ phase hact =>
    have hpos := a.work_pos m.setup.intake none
    obtain ⟨_, _, _, _, _, _, rfl⟩ := act_eq hact
    cases outcome <;> exact work_of_end phase rfl rfl (Nat.le_refl _) hpos
  | ask phase => exact askTicket_work phase (hready .ticket (by rw [phase]; rfl))
  | check phase => exact check_work phase
  | hand phase => exact hand_work phase
  | keep phase => exact work_of_end phase rfl rfl (Nat.le_refl _) (Nat.zero_lt_succ 3)
  | @dropPolled n w a phase worker _ working =>
    obtain ⟨lock, supply, tally, heq⟩ := lose_eq { m with producer := .dropping n } n a
    rw [heq]
    refine work_of_call phase rfl rfl (workersWork_setPhase_le worker ?_) (Nat.lt_succ_self 3)
    simp [Worker.work, working]
  | dropQueued phase worker queued =>
    refine work_of_worker worker rfl rfl rfl rfl ?_
    simp only [Worker.work, queued]
    omega
  | @answer n w e phase worker closing =>
    have hworkers := workersWork_setPhase_le (q := .ended e) worker (Nat.zero_le _)
    obtain ⟨p, phase, hmore⟩ : ∃ p, m.producer = p ∧
        2 < p.work m.setup (m.gate.permits.claims ()) := by
      rcases phase with phase | ⟨phase, -⟩
      · exact ⟨_, phase, Nat.lt_succ_self 2⟩
      · exact ⟨_, phase, Nat.lt_of_succ_lt (Nat.lt_succ_self 3)⟩
    rcases (m.setPhase n (.ended e)).verdictOf_cases n with ⟨-, heq⟩ | ⟨-, heq⟩
    · rw [heq]
      exact work_of_call phase rfl rfl hworkers hmore
    · rw [heq]
      exact work_of_end phase rfl rfl hworkers (Nat.zero_lt_of_lt hmore)
  | refusalCaptured phase => exact work_of_end phase rfl rfl (Nat.le_refl _) Nat.two_pos
  | refusalLate phase => exact work_of_call phase rfl rfl (Nat.le_refl _) Nat.one_lt_two
  | refusalCounted phase => exact work_of_end phase rfl rfl (Nat.le_refl _) Nat.one_pos
  | drain phase => exact askEverything_work phase (hready .everything (by rw [phase]; rfl))
  | conclude phase =>
    unfold conclude
    split
    · exact work_of_end phase rfl rfl (Nat.le_refl _) (Nat.succ_pos _)
    · exact work_of_call phase rfl rfl (Nat.le_refl _) (Nat.lt_add_of_pos_right Nat.two_pos)

theorem isReady_of_stepProducer {r : GateRequest} (h : m.stepProducer = some m')
    (hr : m.producer.request? = some r) : m.gate.isReady () = true := by
  unfold stepProducer at h
  cases hp : m.producer with
  | admitting | draining =>
    rw [hp] at h
    dsimp only at h
    split at h
    · assumption
    · cases h
  | _ =>
    rw [hp] at hr
    cases hr

end Machine

def Move.isStep : Move α → Bool
  | .producer | .worker _ => true
  | _ => false

/-- Every step costs something, and the world around costs nothing, whatever it does; steps are told
by `Move.isStep`. -/
theorem Machine.work_step {m m' : Machine α} {move : Move α} {opened : Bool}
    (h : m.step move = some m') (hmove : move.IsSteady opened) :
    m'.work + move.isStep.toNat ≤ m.work := by
  cases move with
  | producer => exact producer_work (producerStep_of_stepProducer h) fun r hr =>
      isReady_of_stepProducer h hr
  | worker n =>
    obtain ⟨w, hw, hs⟩ := workerStep_of_stepWorker h
    exact worker_work hw hs
  | drop n => exact absurd rfl (hmove.kept n)
  | call | abandon | cancel => cases hmove.inner
  | unlatch | supply | closeSupply =>
    cases h
    exact Nat.le_refl _
  | clock time =>
    simp only [step] at h
    split at h
    · cases h
      exact Nat.le_refl _
    · cases h

/-! ## The work of a bundle -/

def Call.work (s : Setup α) : Call α → Nat
  | .start => scriptWork s.intake none s.processor.startHook
  | .submit item => item.work s.intake
  | .finish => s.finishWork

def Setup.feedWork (s : Setup α) (items : List (WorkItem α)) : Nat :=
  (items.map fun item => item.work s.intake + 1).sum + s.finishWork + 2

def Plan.work (s : Setup α) : Plan α → Nat
  | .none | .over _ => 0
  | .opening items => Call.start.work s + 1 + s.feedWork items
  | .opened items | .feeding items => s.feedWork items
  | .closing _ => 1

theorem Machine.work_beginCall {m : Machine α} (hp : m.producer = .idle) (c : Call α) :
    (m.beginCall c).work ≤ c.work m.setup + m.work := by
  have hwork : m.work = m.workersWork := by
    rw [work, callWork, hp]
    exact Nat.zero_add _
  rw [hwork]
  cases c with
  | start =>
    unfold beginCall
    dsimp only
    split
    · exact Nat.le_refl _
    all_goals exact Nat.add_le_add_right (Nat.zero_le _) _
  | submit item =>
    unfold beginCall
    dsimp only
    split
    · exact Nat.add_le_add_right (Nat.zero_le _) _
    · exact Nat.add_le_add_right (Nat.sub_le _ _) _
    · exact Nat.add_le_add_right (Nat.zero_le _) _
  | finish =>
    unfold beginCall
    dsimp only
    split
    · exact Nat.add_le_add_right (Nat.zero_le _) _
    · exact Nat.add_le_add_right (Nat.sub_le _ _) _
    · exact Nat.add_le_add_right (Nat.zero_le _) _

namespace Run

variable {r r' : Run α} {move : Move α} {moves : List (Move α)} {opened : Bool}

/-- Steps that a bundle still takes: those of the `Plan` that is left, and those of the engine. -/
def work (r : Run α) : Nat := r.plan.work r.machine.setup + r.machine.work

theorem next_work (hp : r.machine.producer = .idle) (h : Next r r') : r'.work < r.work := by
  have hcall (c : Call α) {p : Plan α}
      (hless : p.work r.machine.setup + c.work r.machine.setup < r.plan.work r.machine.setup) :
      (r.makeCall c p).work < r.work := by
    have hbegun := Machine.work_beginCall hp c
    have hsetup : (r.machine.beginCall c).setup = r.machine.setup :=
      (r.machine.sameWork_beginCall c).setup
    simp only [work, makeCall, hsetup]
    omega
  have hover {reply : Reply} (hpos : 0 < r.plan.work r.machine.setup) :
      ({ r with plan := .over reply } : Run α).work < r.work :=
    Nat.add_lt_add_right hpos _
  have hfeed {items : List (WorkItem α)} (plan : r.plan = .opened items ∨ r.plan = .feeding items) :
      r.plan.work r.machine.setup = r.machine.setup.feedWork items := by
    rcases plan with plan | plan <;> rw [plan, Plan.work]
  cases h with
  | start plan =>
    refine hcall .start ?_
    rw [plan]
    simp only [Plan.work, Call.work]
    omega
  | submit plan =>
    refine hcall _ ?_
    rw [hfeed plan]
    simp only [Plan.work, Call.work, Setup.feedWork, List.map_cons, List.sum_cons]
    omega
  | finish plan =>
    refine hcall .finish ?_
    rw [hfeed plan]
    simp only [Plan.work, Call.work, Setup.feedWork]
    omega
  | stop plan =>
    refine hcall .finish ?_
    rw [hfeed (Or.inr plan)]
    simp only [Plan.work, Call.work, Setup.feedWork]
    omega
  | unopened plan =>
    refine hover ?_
    rw [hfeed (Or.inl plan)]
    exact Nat.succ_pos _
  | lost plan =>
    refine hover ?_
    rw [hfeed (Or.inr plan)]
    exact Nat.succ_pos _
  | close plan =>
    refine hover ?_
    rw [plan]
    exact Nat.one_pos

theorem work_step (h : r.step move = some r') (hmove : move.IsSteady opened) :
    r'.work + move.isStep.toNat ≤ r.work := by
  rcases step_cases h with ⟨rfl, hp, hproceed⟩ | ⟨m', hm', rfl⟩
  · exact next_work hp (next_of_proceed hproceed)
  · have hstep := Machine.work_step hm' hmove
    have hsetup : m'.setup = r.machine.setup :=
      (Machine.cellStep (Machine.transition_of_step hm')).2.setup
    simp only [work, hsetup]
    omega

/-- A bundle takes no more steps than it has `work`. -/
theorem work_follow (hmoves : ∀ move ∈ moves, move.IsSteady opened)
    (hrun : r.follow moves = some r') : moves.countP Move.isStep + r'.work ≤ r.work := by
  induction moves generalizing r with
  | nil =>
    cases hrun
    exact Nat.le_of_eq (Nat.zero_add _)
  | cons move moves ih =>
    obtain ⟨r₁, h₁, h₂⟩ := Option.bind_eq_some_iff.mp hrun
    obtain ⟨hmove, hmoves⟩ := List.forall_mem_cons.mp hmoves
    have hstep := work_step h₁ hmove
    have hrest := ih hmoves h₂
    rw [List.countP_cons]
    cases hkind : move.isStep with
    | true =>
      rw [hkind, Bool.toNat_true] at hstep
      simp only [if_true]
      omega
    | false =>
      rw [hkind, Bool.toNat_false] at hstep
      simp only [Bool.false_eq_true, if_false]
      omega

end Run

end WorkBundle
