import WorkBundle.Proofs.Dropped
import WorkBundle.Proofs.Plan

/-!
# The drain is a barrier

What the caller of a finish, or of a whole bundle, may rely on: once it has its answer, every
worker has recorded its outcome and returned its ticket, and nothing reaches the sink any more.
The invariants are those of `WorkBundle.Proofs.Drain` and `WorkBundle.Proofs.Plan`; here they are
read off at the end of a run.
-/

set_option autoImplicit false

namespace WorkBundle

variable {α : Type}

deriving instance DecidableEq for Reply

namespace Machine

/-- The worker has ended: its ticket is back, and its outcome is recorded. One that never began
has no outcome of its own; then the backend has dropped a task it had accepted, or it has refused
the item, and the refusal or an earlier failure is recorded. -/
def Settled (m : Machine α) (moves : List (Move α)) (n : Nat) (w : Worker α) : Prop :=
  ∃ e, (w.phase = .closing e ∨ w.phase = .ended e) ∧ m.Recorded n e ∧
    (e = .unstarted → .drop n ∈ moves ∨ m.verdict n = .discard ∨ m.cell.captured.isSome)

/-- Every worker is `Settled`, and every ticket is back at the gate. -/
structure AllSettled (m : Machine α) (moves : List (Move α)) : Prop where
  workers : ∀ n w, m.workers[n]? = some w → m.Settled moves n w
  tickets : m.gate.outstanding = 0

section

variable {setup : Setup α} {scope : Scope} {moves : List (Move α)} {m : Machine α}

theorem setup_run (hrun : (Machine.new setup scope).run moves = some m) : m.setup = setup := by
  refine run_invariant (I := fun m => m.setup = setup) ?_ rfl hrun
  intro m₁ m₂ move hs h
  exact (cellStep h).2.setup.trans hs

theorem allSettled_of_quiet (hrun : (Machine.new setup scope).run moves = some m) (hq : m.Quiet) :
    m.AllSettled moves := by
  refine ⟨fun n w hw => ?_, ?_⟩
  · obtain ⟨e, hend, hphase⟩ := ending_of_inFlight_zero hq.empty hw
    have haccounts := accounted_run hrun n w hw
    refine ⟨e, hphase, ?_, ?_⟩
    · rcases hphase with hp | hp
      all_goals
        rw [hp] at haccounts
        exact haccounts
    -- Nothing is under way, so of the reasons for a task that never began, those that name
    -- a call in progress are out.
    · rintro rfl
      rcases excused_of_unstarted hrun ⟨w, hw, hend⟩ with h | h | h | hp | ⟨f, hp, -⟩
      · exact Or.inl h
      · exact Or.inr (Or.inl h)
      · exact Or.inr (Or.inr h)
      all_goals
        rw [hq.idle] at hp
        cases hp
  · have htickets := (drains hrun).tickets
    unfold TicketsOk at htickets
    rw [hq.idle, hq.empty] at htickets
    exact htickets.outstanding_of_nobody

end

end Machine

namespace Run

theorem follow_machine {r r' : Run α} {moves : List (Move α)} (hrun : r.follow moves = some r') :
    ∃ expanded, r.machine.run expanded = some r'.machine ∧
      ∀ n, Move.drop n ∈ expanded → Move.drop n ∈ moves := by
  induction moves generalizing r with
  | nil =>
    cases hrun
    exact ⟨[], rfl, fun _ h => h⟩
  | cons move moves ih =>
    obtain ⟨r₁, h₁, h₂⟩ := Option.bind_eq_some_iff.mp hrun
    obtain ⟨expanded, hexp, hdrops⟩ := ih h₂
    have hlater (n : Nat) (h : Move.drop n ∈ expanded) : Move.drop n ∈ move :: moves :=
      List.mem_cons_of_mem _ (hdrops n h)
    rcases step_cases h₁ with ⟨rfl, hp, hproceed⟩ | ⟨m', hm', rfl⟩
    · rcases next_machine (next_of_proceed hproceed) with heq | ⟨c, heq⟩
      · rw [heq] at hexp
        exact ⟨expanded, hexp, hlater⟩
      · have hcall : r.machine.step (.call c) = some r₁.machine := by
          rw [heq, Machine.step_call hp]
        refine ⟨.call c :: expanded, ?_, fun n h => ?_⟩
        · rw [Machine.run_cons, hcall]
          exact hexp
        · rcases List.mem_cons.mp h with h | h
          · cases h
          · exact hlater n h
    · refine ⟨move :: expanded, ?_, fun n h => ?_⟩
      · rw [Machine.run_cons, hm']
        exact hexp
      · rcases List.mem_cons.mp h with rfl | h
        · exact List.mem_cons_self
        · exact hlater n h

end Run

namespace Machine

/-- The drain is a barrier. When a finish has been answered after its drain, every worker has
recorded its outcome and returned its ticket, and nothing reaches the sink any more. The finish
hook is called at most once, with no worker in flight and no failure captured, and it is called
whenever the drain is complete and no failure was captured. A whole bundle, which nobody can
cancel, is over in the same sense whenever it has a result. -/
theorem drain_barrier {setup : Setup α} {scope : Scope} {moves : List (Move α)} {m : Machine α}
    (hrun : (Machine.new setup scope).run moves = some m) :
    (∀ reply, (Call.finish, reply) ∈ (Machine.new setup scope).exchanges moves →
      reply.isDrained = true →
        m.AllSettled moves ∧
        (Machine.new setup scope).finishHooks moves = (if m.cell.captured.isSome then 0 else 1) ∧
        ∀ later m', m.run later = some m' → m.SameSink m') ∧
    (Machine.new setup scope).finishHooks moves ≤ 1 ∧
    (m.producer.isFinishing = true → inFlight m.workers = 0 ∧ m.cell.captured = none) ∧
    (m.producer = .drained → m.cell.captured = none →
      m.step .producer =
        some { m with producer := .finishing { script := setup.processor.finishHook } } ∧
      ∀ later m', m.run later = some m' → m'.producer = .drained ∨
        (Machine.new setup scope).finishHooks (moves ++ later) = 1) ∧
    (∀ items inner r reply, (Run.bundle (.new setup scope) items).follow inner = some r →
      (∀ move ∈ inner, move.isInner = true) → r.result? = some reply →
        r.machine.AllSettled inner ∧
        ∀ later r', r.follow later = some r' → (∀ move ∈ later, move.isInner = true) →
          r.machine.SameSink r'.machine) := by
  have hd := drains hrun
  refine ⟨?_, hd.hooks.le_one, ?_, ?_, ?_⟩
  · intro reply hmem hdrained
    have hover := hd.ended reply hmem hdrained
    refine ⟨allSettled_of_quiet hrun hover.quiet, hover.hooks, fun later m' hlater => ?_⟩
    exact (hover.quiet.run hover.stage hlater).2.2
  · intro hf
    exact ⟨hd.tickets.inFlight_zero (Or.inr hf), (hd.hooks.during hf).2⟩
  · intro hp hcell
    refine ⟨?_, fun later m' hlater => ?_⟩
    · rw [step_of_drained hp hcell, setup_run hrun]
    · refine (drained_run hd.tickets hp hcell hlater).imp_right fun hpos => ?_
      have hatmost := (drains (run_trans hrun hlater)).hooks.le_one
      rw [finishHooks_append hrun] at hatmost ⊢
      omega
  · intro items inner r reply hfollow hinner hresult
    have hsound := (Run.Sound.bundle setup scope items).run hinner hfollow
    have hplan := Run.plan_of_result? hresult
    have hq := hsound.quiet hplan
    obtain ⟨expanded, hexp, hdrops⟩ := Run.follow_machine hfollow
    have hsettled := allSettled_of_quiet hexp hq
    refine ⟨⟨fun n w hw => ?_, hsettled.tickets⟩, fun later r' hlater hmoves => ?_⟩
    · obtain ⟨e, hphase, hrecorded, hexcused⟩ := hsettled.workers n w hw
      exact ⟨e, hphase, hrecorded, fun he => (hexcused he).imp_left (hdrops n)⟩
    · exact (Run.over_run hplan hq hmoves hlater).2.2

/-- A bundle of elements that are handled one at a time, with which several runs below are made. -/
def soloSetup : Setup Nat := { processor := { name := "solo" }, parallelism := { count := 1 } }

/-- One element, from the start of the bundle to the answer of the finish. -/
def soloMoves : List (Move Nat) :=
  [.call .start, .producer,
    .call (.submit { value := 7, script := [.emit (.output (.given 7))] }),
    .producer, .producer, .producer,
    .worker 0, .worker 0, .worker 0, .worker 0, .worker 0, .worker 0, .worker 0,
    .call .finish, .producer, .producer, .producer]

theorem drain_barrier_solo :
    ∃ m reply, (Machine.new soloSetup).run soloMoves = some m ∧
      (Call.finish, reply) ∈ (Machine.new soloSetup).exchanges soloMoves ∧
      m.AllSettled soloMoves ∧ (Machine.new soloSetup).finishHooks soloMoves ≤ 1 := by
  have hsome : ((Machine.new soloSetup).run soloMoves).isSome = true := by decide +kernel
  have hfinish : ((Machine.new soloSetup).exchanges soloMoves).any
      (fun x => x.1.isFinish && x.2.isDrained) = true := by decide +kernel
  obtain ⟨m, hrun⟩ := Option.isSome_iff_exists.mp hsome
  obtain ⟨⟨c, reply⟩, hmem, htest⟩ := List.any_eq_true.mp hfinish
  obtain ⟨hc, hdrained⟩ := Bool.and_eq_true_iff.mp htest
  cases c with
  | finish =>
    obtain ⟨hanswer, hhooks, -⟩ := drain_barrier hrun
    exact ⟨m, reply, hrun, hmem, (hanswer reply hmem hdrained).1, hhooks⟩
  | start | submit => cases hc

end Machine

end WorkBundle
