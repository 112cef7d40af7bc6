import WorkBundle.Proofs.Cancellation
import WorkBundle.Proofs.Holdings

/-!
# Whether the engine tells the truth about its tickets

Between two calls the tickets that are out are with the workers, whatever has happened before. An
engine tells their number while the bundle is started, and zero before and after that. Before, that
is the truth, since nothing was handed over. Afterwards it is the truth if the drain was complete,
for nobody has a ticket then.

A drain that is given up, or that meets a cancellation, leaves workers behind that go on with their
tickets (`CutShort`). The bundle counts as finished all the same, and tells that nothing is out.
-/

set_option autoImplicit false

namespace WorkBundle

variable {α : Type}

namespace Machine

variable {m m' : Machine α} {move : Move α} {current : Option (Call α)}

/-- By this move a drain that still waits is given up, or gives up because of a cancellation. The
stage of the bundle is `finished` since the call was made, and stays so. -/
def CutsShort (m : Machine α) (move : Move α) : Prop :=
  m.producer = .draining ∧ (move = .abandon ∨ move = .producer ∧ m.gate.cancelled = true)

/-- The drain of the bundle was cut short, by a move that `CutsShort`. -/
def CutShort (m₀ : Machine α) (moves : List (Move α)) : Prop := m₀.Happens moves CutsShort

theorem cutsShort_of_idle (ht : Transition m move m') (hp : m.producer = .draining)
    (hidle : m'.producer = .idle) : m.CutsShort move := by
  refine ⟨hp, ?_⟩
  have hbusy : m.producer ≠ .idle := by
    rw [hp]
    nofun
  have hsame (h : m'.producer = m.producer) : False := by
    rw [hidle] at h
    exact hbusy h.symm
  cases ht with
  | violation idle | start idle | submit idle | finish idle => exact absurd idle hbusy
  | abandonStart phase | abandonFinish phase =>
    rw [hp] at phase
    cases phase
  | abandonWait => exact Or.inl rfl
  | producer hstep =>
    apply Or.inr
    constructor
    · rfl
    · cases callStep_of_producer hstep with
      | goesOn _ phase =>
        have hstage := (phase rfl).1
        rw [hidle, hp] at hstage
        cases hstage
      | ends _ _ _ how =>
        have hend := how.at_stage
        rw [hp] at hend
        rcases hend with hcancelled | ⟨-, hphase | hphase⟩
        · exact hcancelled
        · cases hphase
        · cases hphase
  | worker _ hstep => exact (hsame (SameCall.of_worker hstep).producer).elim
  | drop _ _ hstep => exact (hsame (SameCall.of_drop hstep).producer).elim
  | cancel | world => exact (hsame rfl).elim

theorem TicketStep.inFlight_le (h : TicketStep m m' move)
    (hp : ∀ item, m.producer ≠ .handing item) : inFlight m'.workers ≤ inFlight m.workers := by
  cases h with
  | still _ hholders => exact (inFlight_congr hholders).le
  | cancelled _ _ workers | waits _ _ workers | granted _ _ workers | givenUp _ _ workers
  | returned _ _ workers => rw [workers]
  | handed phase => exact absurd phase (hp _)
  | left _ held _ hholders =>
    have hone := inFlight_of_left held hholders
    omega

/-- What a run says about the workers that are in flight when the bundle is finished and no call is
in progress: there are some only if its drain was `CutShort`. -/
structure FlightKnown (m₀ : Machine α) (moves : List (Move α)) (m : Machine α) : Prop where
  finished : m.stage = .finished → m.producer = .idle → inFlight m.workers ≠ 0 → m₀.CutShort moves
  cut : m₀.CutShort moves → m.stage = .finished

theorem inFlight_of_finished (hord : m.Orderly current) (htickets : m.TicketsOk)
    (hcreated : m.stage = .created → m.workers = []) (ht : Transition m move m')
    (hs : m'.stage = .finished) (hidle : m'.producer = .idle) (hflight : inFlight m'.workers ≠ 0) :
    m.CutsShort move ∨ m.stage = .finished ∧ m.producer = .idle ∧ inFlight m.workers ≠ 0 := by
  have hle (hstage : m.stage ≠ .started) : inFlight m'.workers ≤ inFlight m.workers := by
    apply (ticketStep ht).inFlight_le
    intro item hp
    apply hstage
    exact hord.stage _ (by rw [hp]; rfl)
  cases hstage : m.stage with
  | created =>
    have hmost := hle (by rw [hstage]; nofun)
    rw [hcreated hstage] at hmost
    exact absurd (Nat.le_zero.mp hmost) hflight
  | started =>
    by_cases hcall : move = .call .finish
    · subst hcall
      cases ht with
      | violation _ wrong =>
        rw [hstage] at wrong
        cases wrong
      | finish => cases hidle
      | world world => cases world
    · have hstill := hord.started_after ht hstage hcall
      rw [hs] at hstill
      cases hstill
  | finished =>
    have hmost := hle (by rw [hstage]; nofun)
    have hpos : inFlight m.workers ≠ 0 := by omega
    have hphase := hord.stage
    cases hp : m.producer with
    | idle => exact Or.inr ⟨rfl, rfl, hpos⟩
    | draining => exact Or.inl (cutsShort_of_idle ht hp hidle)
    | drained => exact absurd (htickets.inFlight_zero (Or.inl hp)) hpos
    | finishing a => exact absurd (htickets.inFlight_zero (Or.inr (by rw [hp]; rfl))) hpos
    | _ =>
      have hother := hphase _ (by rw [hp]; rfl)
      rw [hstage] at hother
      cases hother

theorem FlightKnown.step {m₀ : Machine α} {moves : List (Move α)} (h : m₀.FlightKnown moves m)
    (hd : m₀.Drains moves m) (hcreated : m.stage = .created → m.workers = [])
    (hrun : m₀.run moves = some m) (hstep : m.step move = some m') :
    m₀.FlightKnown (moves ++ [move]) m' := by
  have ht := transition_of_step hstep
  refine ⟨?_, ?_⟩
  · intro hs hidle hflight
    rw [CutShort, happens_concat hrun]
    rcases inFlight_of_finished hd.orderly hd.tickets hcreated ht hs hidle hflight with
      hcuts | ⟨hfin, hbefore, hpos⟩
    · exact Or.inr hcuts
    · exact Or.inl (h.finished hfin hbefore hpos)
  · intro hcut
    apply hd.orderly.finished_after ht
    rw [CutShort, happens_concat hrun] at hcut
    rcases hcut with hcut | ⟨hp, -⟩
    · exact h.cut hcut
    · exact hd.orderly.stage _ (by rw [hp]; rfl)

section

variable {setup : Setup α} {scope : Scope} {moves : List (Move α)}

theorem flightKnown (hrun : (Machine.new setup scope).run moves = some m) :
    (Machine.new setup scope).FlightKnown moves m := by
  refine run_induction ?_ (fun hrun h hstep =>
    h.step (drains hrun) (workers_of_created hrun) hrun hstep) hrun
  refine ⟨?_, ?_⟩
  · intro hs
    cases hs
  · intro hcut
    exact absurd hcut (not_happens_nil _ _)

/-- **When the engine tells the truth about its tickets.** Between two calls the gate has given out
as many tickets as there are workers in flight. The engine says so as long as the bundle is not
finished; a finished bundle says that nothing is out. So it says something else than the truth
exactly if its drain was cut short and a worker that was left behind is still in flight; after a
finish that ended in any other way it says the truth. -/
theorem outstanding_iff_not_cut_short (hrun : (Machine.new setup scope).run moves = some m)
    (hidle : m.producer = .idle) :
    m.gate.outstanding = inFlight m.workers ∧
      (m.stage ≠ .finished → m.outstanding = inFlight m.workers) ∧
      (m.stage = .finished → m.outstanding = 0) ∧
      (m.outstanding ≠ inFlight m.workers ↔
        (Machine.new setup scope).CutShort moves ∧ inFlight m.workers ≠ 0) ∧
      ∀ reply, (Call.finish, reply) ∈ (Machine.new setup scope).exchanges moves →
        reply.isDrained = true → m.outstanding = inFlight m.workers := by
  have hd := drains hrun
  have hknown := flightKnown hrun
  have hgate : m.gate.outstanding = inFlight m.workers := by
    rw [hd.tickets.outstanding_eq, acceptedTickets_of_answered (by rw [answeredFor, hidle])]
    simp only [submissionTickets, drainTickets, hidle]
    omega
  have hopen (hs : m.stage ≠ .finished) : m.outstanding = inFlight m.workers := by
    unfold outstanding
    cases hstage : m.stage with
    | created =>
      rw [workers_of_created hrun hstage]
      rfl
    | started => exact hgate
    | finished => exact absurd hstage hs
  have hclosed (hs : m.stage = .finished) : m.outstanding = 0 := by
    unfold outstanding
    rw [hs]
  refine ⟨hgate, hopen, hclosed, ?_, ?_⟩
  · constructor
    · intro hne
      have hs : m.stage = .finished := by
        by_contra hs
        exact hne (hopen hs)
      rw [hclosed hs] at hne
      exact ⟨hknown.finished hs hidle hne.symm, hne.symm⟩
    · rintro ⟨hcut, hflight⟩
      rw [hclosed (hknown.cut hcut)]
      exact hflight.symm
  · intro reply hmem hdrained
    have hover := hd.ended reply hmem hdrained
    rw [hclosed hover.stage, hover.quiet.empty]

end

/-- A drain is cancelled while the only worker is at its element. -/
def cutMoves : List (Move Nat) := hushMoves ++ [.cancel, .producer]

theorem outstanding_iff_not_cut_short_hush :
    ∃ m, (Machine.new hushSetup).run cutMoves = some m ∧ m.producer = .idle ∧
      m.gate.outstanding = 1 ∧ (Machine.new hushSetup).CutShort cutMoves ∧
      m.outstanding ≠ inFlight m.workers := by
  have hstate : ((Machine.new hushSetup).run cutMoves).map (fun m => (m.isBusy, m.stage,
      inFlight m.workers)) = some (false, .finished, 1) := by
    decide +kernel
  obtain ⟨m, hrun, hm⟩ := Option.map_eq_some_iff.mp hstate
  obtain ⟨hbusy, hstage, hflight⟩ : m.isBusy = false ∧ m.stage = .finished ∧
      inFlight m.workers = 1 := by simpa using hm
  have hidle := idle_of_not_busy hbusy
  obtain ⟨hgate, -, hclosed, hiff, -⟩ := outstanding_iff_not_cut_short hrun hidle
  have hne : m.outstanding ≠ inFlight m.workers := by
    rw [hclosed hstage, hflight]
    nofun
  exact ⟨m, hrun, hidle, hgate.trans hflight, (hiff.mp hne).1, hne⟩

/-- The answer of the finish says that it was cancelled. The engine says that nothing is out, and
one worker is in flight. -/
theorem worker_left_behind_untold :
    ∃ m, (Machine.new hushSetup).run cutMoves = some m ∧ m.isBusy = false ∧
      m.replies = [.answer (.ok ()), .answer (.ok ()), .answer (.error (.cancelled .drain))] ∧
      m.outstanding = 0 ∧ inFlight m.workers = 1 := by
  have hstate : ((Machine.new hushSetup).run cutMoves).map (fun m => (m.isBusy, m.replies,
      m.outstanding, inFlight m.workers)) =
        some (false, [.answer (.ok ()), .answer (.ok ()), .answer (.error (.cancelled .drain))],
          0, 1) := by
    decide +kernel
  obtain ⟨m, hrun, hm⟩ := Option.map_eq_some_iff.mp hstate
  obtain ⟨hbusy, hm⟩ := Prod.mk.inj hm
  obtain ⟨hreplies, hm⟩ := Prod.mk.inj hm
  obtain ⟨hout, hflight⟩ := Prod.mk.inj hm
  exact ⟨m, hrun, hbusy, hreplies, hout, hflight⟩

end Machine

end WorkBundle
