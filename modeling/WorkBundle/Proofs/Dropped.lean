import WorkBundle.Proofs.Failures

/-!
# Tasks that never began

A task that is dropped before it has begun gives its ticket back and nothing else: no code of it
has run that could leave a record. `DropsUnbegun` says when that happens, and `unstarted_iff` that
the workers with this ending are those it has happened to. If the backend has refused the item,
the refusal stands for the record (`Excused`).
-/

set_option autoImplicit false

namespace WorkBundle

variable {α : Type}

namespace Machine

/-- The move drops the task of a worker that is still `queued`. A runtime can do so later, by
`drop`, or on the stack of the call that hands the task over. -/
def DropsUnbegun (m : Machine α) (move : Move α) (n : Nat) : Prop :=
  (∃ w, m.workers[n]? = some w ∧ w.phase = .queued) ∧
    (move = .drop n ∨ move = .producer ∧ m.producer = .dropping n)

/-- Somewhere in the run the task of this worker met `DropsUnbegun`. -/
def Unbegun (m₀ : Machine α) (moves : List (Move α)) (n : Nat) : Prop :=
  m₀.Happens moves fun m move => m.DropsUnbegun move n

/-- The worker has ended as `unstarted`: its guard was never made, so nobody offers a failure for
it, and a drain succeeds in spite of it. -/
def IsUnstarted (m : Machine α) (n : Nat) : Prop :=
  ∃ w, m.workers[n]? = some w ∧ w.phase.ending? = some .unstarted

theorem PhaseStep.unstarted_inv {m m' : Machine α} {move : Move α} {n : Nat} {p q : WorkerPhase α}
    (how : PhaseStep m m' move n p q) (hp : m.Accounts n p) (hq : q.ending? = some .unstarted) :
    p.ending? = some .unstarted ∨
      p = .queued ∧ (move = .drop n ∨ move = .producer ∧ m.producer = .dropping n) := by
  cases how with
  | begin | goOn | returned | failed | late => cases hq
  | captured =>
    cases hq
    cases hp
  | counted =>
    cases hq
    cases hp.1
  | left | closed => exact Or.inl hq
  | unstarted dropped => exact Or.inr ⟨rfl, dropped⟩

theorem PhaseStep.ending_eq {m m' : Machine α} {move : Move α} {n : Nat} {p q : WorkerPhase α}
    {e : Ending} (how : PhaseStep m m' move n p q) (hp : p.ending? = some e) :
    q.ending? = some e := by
  cases how with
  | left | closed => exact hp
  | _ => cases hp

theorem PhaseStep.fate_eq {m m' : Machine α} {move : Move α} {n : Nat} {p q : WorkerPhase α}
    {e : Ending} (how : PhaseStep m m' move n p q) (hp : p.fate? = some e) : q.fate? = some e := by
  cases how with
  | captured | late | counted | left | closed => exact hp
  | _ => cases hp

/-- What every `PhaseStep` keeps of one worker, every transition keeps. Endings and fates are for
good by this lemma, with one line each about the phases. -/
theorem worker_step {m m' : Machine α} {move : Move α} {P : WorkerPhase α → Prop}
    (hP : ∀ {n p q}, PhaseStep m m' move n p q → P p → P q) (h : Transition m move m') {n : Nat}
    {w : Worker α} (hw : m.workers[n]? = some w) (hp : P w.phase) :
    ∃ w', m'.workers[n]? = some w' ∧ w'.item = w.item ∧ P w'.phase := by
  cases workersStep h with
  | same workers => exact ⟨w, by rw [workers]; exact hw, rfl, hp⟩
  | more _ workers => exact ⟨w, by rw [workers]; exact getElem?_append_of_some hw _, rfl, hp⟩
  | @change k wk p worker workers how =>
    by_cases hk : n = k
    · subst hk
      obtain rfl : wk = w := Option.some.inj (worker.symm.trans hw)
      exact ⟨{ wk with phase := p }, by rw [workers]; exact setPhase_self hw p, rfl, hP how hp⟩
    · exact ⟨w, by rw [workers, setPhase_other hk p]; exact hw, rfl, hp⟩

theorem ending_step {m m' : Machine α} {move : Move α} {n : Nat} {w : Worker α} {e : Ending}
    (h : Transition m move m') (hw : m.workers[n]? = some w) (he : w.phase.ending? = some e) :
    ∃ w', m'.workers[n]? = some w' ∧ w'.phase.ending? = some e := by
  obtain ⟨w', hw', -, he'⟩ := worker_step PhaseStep.ending_eq h hw he
  exact ⟨w', hw', he'⟩

theorem unstarted_step {m m' : Machine α} {move : Move α} {n : Nat} (h : Transition m move m')
    (ha : m.Accounted) (hn : m'.IsUnstarted n) : m.IsUnstarted n ∨ m.DropsUnbegun move n := by
  obtain ⟨w', hw', hend⟩ := hn
  cases workersStep h with
  | same workers => exact Or.inl ⟨w', by rw [← workers]; exact hw', hend⟩
  | more _ workers =>
    rw [workers] at hw'
    rcases getElem?_concat_cases hw' with ⟨-, rfl⟩ | hw'
    · cases hend
    · exact Or.inl ⟨w', hw', hend⟩
  | change worker workers how =>
    rw [workers] at hw'
    rcases worker_of_setPhase worker hw' with ⟨rfl, rfl⟩ | ⟨-, hw'⟩
    · rcases how.unstarted_inv (ha _ _ worker) hend with hold | ⟨hqueued, hdropped⟩
      · exact Or.inl ⟨_, worker, hold⟩
      · exact Or.inr ⟨⟨_, worker, hqueued⟩, hdropped⟩
    · exact Or.inl ⟨w', hw', hend⟩

theorem unstarted_of_drop {m m' : Machine α} {move : Move α} {n : Nat} (h : Transition m move m')
    (hd : m.DropsUnbegun move n) : m'.IsUnstarted n := by
  obtain ⟨⟨w, hw, hqueued⟩, hmove⟩ := hd
  have hset : (m.setPhase n (.leaving .unstarted)).IsUnstarted n := ⟨_, setPhase_self hw _, rfl⟩
  rcases hmove with rfl | ⟨rfl, hp⟩
  · cases h with
    | @drop _ w' _ hw' _ hstep =>
      obtain rfl : w' = w := Option.some.inj (hw'.symm.trans hw)
      cases hstep with
      | queued => exact hset
      | working phase =>
        rw [hqueued] at phase
        cases phase
    | world world => cases world
  · cases h with
    | producer hstep =>
      cases hstep with
      | @dropQueued n' w' phase =>
        rw [hp] at phase
        cases phase
        exact hset
      | @answer n' w' e phase worker closing =>
        rw [hp] at phase
        rcases phase with phase | ⟨phase, -⟩
        · cases phase
          obtain rfl : w' = w := Option.some.inj (worker.symm.trans hw)
          rw [hqueued] at closing
          cases closing
        · cases phase
      | _ =>
        rename m.producer = _ => phase
        rw [hp] at phase
        cases phase
    | world world => cases world

theorem accounted_run {setup : Setup α} {scope : Scope} {moves : List (Move α)} {m : Machine α}
    (hrun : (Machine.new setup scope).run moves = some m) : m.Accounted :=
  (Accounted.new setup scope).run hrun

/-- A worker `IsUnstarted` just if its task is `Unbegun` in the run before: the ending is nothing
but the trace of that drop. -/
theorem unstarted_iff {setup : Setup α} {scope : Scope} {moves : List (Move α)} {m : Machine α}
    (hrun : (Machine.new setup scope).run moves = some m) (n : Nat) :
    m.IsUnstarted n ↔ (Machine.new setup scope).Unbegun moves n := by
  refine run_induction (Q := fun moves m =>
    m.IsUnstarted n ↔ (Machine.new setup scope).Unbegun moves n) ?_ ?_ hrun
  · constructor
    · rintro ⟨w, hw, -⟩
      cases hw
    · exact fun h => absurd h (not_happens_nil _ _)
  · intro moves m m' move hrun ih hstep
    have ht := transition_of_step hstep
    rw [Unbegun, happens_concat hrun, ← Unbegun, ← ih]
    constructor
    · exact unstarted_step ht (accounted_run hrun)
    · rintro (⟨w, hw, hend⟩ | hdrop)
      · exact ending_step ht hw hend
      · exact unstarted_of_drop ht hdrop

/-! ## Refused items -/

/-- Why a worker that has not begun may have left no record of its own: its task was dropped after
it was accepted, or it was refused, and the refusal is recorded or on its way to the cell. Refusals
are no loss, since `submit` itself answers for them. -/
def Excused (m : Machine α) (moves : List (Move α)) (n : Nat) : Prop :=
  .drop n ∈ moves ∨ m.verdict n = .discard ∨ m.cell.captured.isSome ∨
    m.producer = .dropping n ∨ ∃ f, m.producer = .refused f ∧ f.item = n

theorem dropping_step {m m' : Machine α} {move : Move α} {n : Nat} (h : Transition m move m')
    (hp : m.producer = .dropping n) (hj : m.Judged m.producer) :
    m.verdict n = .discard ∨ m'.producer = .dropping n ∨
      ∃ f, m'.producer = .refused f ∧ f.item = n := by
  rw [hp] at hj
  rcases same_or_producerStep h (by rw [hp]; nofun) (by simp only [abandon, hp]) with hsame | hstep
  · exact Or.inr (Or.inl (hsame.producer.trans hp))
  · cases hstep with
    | dropQueued => exact Or.inr (Or.inl hp)
    | @answer n' w e phase =>
      obtain rfl : n' = n := by
        rw [hp] at phase
        rcases phase with phase | ⟨phase, -⟩ <;> cases phase
        rfl
      rcases (m.setPhase n' (.ended e)).verdictOf_cases n' with ⟨-, heq⟩ | ⟨hkept, -⟩
      · rw [heq]
        exact Or.inr (Or.inr ⟨_, rfl, rfl⟩)
      · have hkept : m.verdict n' ≠ .refuse := hkept
        refine Or.inl ?_
        cases hv : m.verdict n' with
        | discard => rfl
        | run => exact absurd hv hj
        | refuse => exact absurd hv hkept
    | _ =>
      rename m.producer = _ => phase
      rw [hp] at phase
      cases phase

theorem refused_step {m m' : Machine α} {move : Move α} {f : Failure} (h : Transition m move m')
    (hp : m.producer = .refused f) : m'.cell.captured.isSome ∨ m'.producer = .refused f := by
  rcases same_or_producerStep h (by rw [hp]; nofun) (by simp only [abandon, hp]) with hsame | hstep
  · exact Or.inr (hsame.producer.trans hp)
  · cases hstep with
    | refusalCaptured => exact Or.inl rfl
    | refusalLate _ full => exact Or.inl (by rw [full]; rfl)
    | answer phase =>
      rw [hp] at phase
      rcases phase with phase | ⟨phase, -⟩ <;> cases phase
    | _ =>
      rename m.producer = _ => phase
      rw [hp] at phase
      cases phase

theorem Excused.step {m m' : Machine α} {moves : List (Move α)} {move : Move α} {n : Nat}
    (he : m.Excused moves n) (h : Transition m move m') (hj : m.Judged m.producer) :
    m'.Excused (moves ++ [move]) n := by
  have hverdict : m'.verdict n = m.verdict n := by rw [verdict, (cellStep h).2.setup]; rfl
  rcases he with hdrop | hdiscard | hfull | hp | ⟨f, hp, hitem⟩
  · exact Or.inl (List.mem_append_left _ hdrop)
  · exact Or.inr (Or.inl (hverdict.trans hdiscard))
  · exact Or.inr (Or.inr (Or.inl (isSome_captured_step h hfull)))
  · rcases dropping_step h hp hj with hv | hp' | hp'
    · exact Or.inr (Or.inl (hverdict.trans hv))
    · exact Or.inr (Or.inr (Or.inr (Or.inl hp')))
    · exact Or.inr (Or.inr (Or.inr (Or.inr hp')))
  · rcases refused_step h hp with hfull | hp'
    · exact Or.inr (Or.inr (Or.inl hfull))
    · exact Or.inr (Or.inr (Or.inr (Or.inr ⟨f, hp', hitem⟩)))

theorem judged_run {setup : Setup α} {scope : Scope} {moves : List (Move α)} {m : Machine α}
    (hrun : (Machine.new setup scope).run moves = some m) : m.Judged m.producer := by
  have hnew : (Machine.new setup scope).Judged (Machine.new setup scope).producer := trivial
  exact run_invariant (I := fun m => m.Judged m.producer) (fun hj h => judged_step hj h) hnew hrun

theorem excused_of_unstarted {setup : Setup α} {scope : Scope} {moves : List (Move α)}
    {m : Machine α} (hrun : (Machine.new setup scope).run moves = some m) {n : Nat}
    (hn : m.IsUnstarted n) : m.Excused moves n := by
  refine run_induction (Q := fun moves m => m.IsUnstarted n → m.Excused moves n) ?_ ?_ hrun hn
  · rintro ⟨w, hw, -⟩
    cases hw
  · intro moves m m' move hrun ih hstep hn
    have ht := transition_of_step hstep
    have hj := judged_run hrun
    rcases unstarted_step ht (accounted_run hrun) hn with hold | ⟨-, rfl | ⟨-, hp⟩⟩
    · exact (ih hold).step ht hj
    · exact Or.inl (List.mem_append_right _ List.mem_cons_self)
    · exact Excused.step (Or.inr (Or.inr (Or.inr (Or.inl hp)))) ht hj

end Machine

end WorkBundle
