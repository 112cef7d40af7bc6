import WorkBundle.Proofs.FailureSteps

/-!
# The balance of failures

Workers with a failure and refused items together are those that were captured, counted, or are
still on their way, and every worker that is through with its failure has its line in the log
(`Books.Balanced`). What the backend does not run it drops before it begins, so a refused item never
fails as a worker (`Untouched`).
-/

set_option autoImplicit false

namespace WorkBundle

variable {α : Type}

/-! ## What is made is captured, counted, or on its way -/

namespace Books

theorem countP_quiet {more : List Record} (quiet : ∀ r ∈ more, r.event.isOutcome = false)
    {p : Event → Bool} (hp : ∀ e, p e = true → e.isOutcome = true) :
    more.countP (p ·.event) = 0 := by
  refine List.countP_eq_zero.mpr fun r hr htrue => ?_
  have hfalse := quiet r hr
  rw [hp _ htrue] at hfalse
  cases hfalse

theorem countP_append_quiet {more : List Record} (quiet : ∀ r ∈ more, r.event.isOutcome = false)
    {p : Event → Bool} (hp : ∀ e, p e = true → e.isOutcome = true) (log : List Record) :
    (log ++ more).countP (p ·.event) = log.countP (p ·.event) := by
  rw [List.countP_append, countP_quiet quiet hp, Nat.add_zero]

/-- Whoever failed or was refused is captured, counted, or on the way there; and for every worker
that is through with its failure there is a line in the log. These are equations of numbers in the
`Books`: who failed is the matter of `Noted`, and here every failure only counts once. -/
structure Balanced (refused : Nat → Bool) (b : Books α) : Prop where
  outcomes :
    b.workers.countP (·.phase.isBlamed) + (List.range b.dispatched).countP refused =
      b.cell.captured.isSome.toNat + b.cell.dropped + b.workers.countP (·.phase.isPending) +
        ((b.drops?.any refused).toNat + b.refusing.toNat)
  records :
    b.log.countP (·.event.isFirst) + b.log.countP (·.event.isLate) +
      b.workers.countP (·.phase.isPending) = b.workers.countP (·.phase.isBlamed)

end Books

namespace Machine

def isRefused (m : Machine α) (n : Nat) : Bool := m.verdict n == .refuse

theorem isFirst_isOutcome (e : Event) (h : e.isFirst = true) : e.isOutcome = true := by
  simp [Event.isOutcome, h]

theorem isLate_isOutcome (e : Event) (h : e.isLate = true) : e.isOutcome = true := by
  simp [Event.isOutcome, h]

theorem isTaskFailed_isOutcome (e : Event) (h : e.isTaskFailed = true) : e.isOutcome = true := by
  simp [Event.isOutcome, h]

theorem countP_endRecords (m : Machine α) (e : Ending) :
    (m.endRecords e).countP (·.event.isFirst) = 0 ∧ (m.endRecords e).countP (·.event.isLate) = 0 ∧
      (m.endRecords e).countP (·.event.isTaskFailed) =
        if m.setup.backend.reportsAs.isSome then e.isFailed.toNat else 0 := by
  unfold endRecords
  cases e with
  | failed f => cases m.setup.backend.reportsAs <;> exact ⟨rfl, rfl, rfl⟩
  | returned | lost | unstarted => cases m.setup.backend.reportsAs <;> exact ⟨rfl, rfl, rfl⟩

section

variable {m m' : Machine α}

/-- A worker that goes on keeps the books `Balanced` if what it adds to the failed ones, it adds to
what is captured, counted or on its way, and if its line is written once its failure is off its
hands. The steps of workers differ only in these numbers. -/
theorem balanced_of_worker (h : m.books.Balanced m.isRefused) {n : Nat} {w : Worker α}
    {p : WorkerPhase α} {more : List Record} (hw : m.workers[n]? = some w) {b : Books α}
    (workers : b.workers = (m.setPhase n p).workers) (log : b.log = m.log ++ more)
    (dispatched : b.dispatched = m.dispatched)
    (refusals : (b.drops?.any m.isRefused).toNat + b.refusing.toNat =
      (m.producer.drops?.any m.isRefused).toNat + m.producer.pending?.isSome.toNat)
    (outcomes : b.cell.captured.isSome.toNat + b.cell.dropped + p.isPending.toNat +
        w.phase.isBlamed.toNat =
      m.cell.captured.isSome.toNat + m.cell.dropped + w.phase.isPending.toNat + p.isBlamed.toNat)
    (records : more.countP (·.event.isFirst) + more.countP (·.event.isLate) + p.isPending.toNat +
        w.phase.isBlamed.toNat = w.phase.isPending.toNat + p.isBlamed.toNat) :
    b.Balanced m.isRefused := by
  obtain ⟨houtcomes, hrecords⟩ := h
  simp only [books] at houtcomes hrecords
  have hblamed := countP_setPhase WorkerPhase.isBlamed hw p
  have hpending := countP_setPhase WorkerPhase.isPending hw p
  refine ⟨?_, ?_⟩
  · rw [workers, dispatched, refusals]
    omega
  · rw [workers, log, List.countP_append, List.countP_append]
    omega

theorem balanced_of_refusal (h : m.books.Balanced m.isRefused)
    (hdrops : m.producer.drops? = none) (hrefusing : m.producer.pending?.isSome = true)
    {cell : FailureCell} (hcell : cell.captured.isSome.toNat + cell.dropped =
      m.cell.captured.isSome.toNat + m.cell.dropped + 1) :
    Books.Balanced m.isRefused { m.books with cell, refusing := false } := by
  obtain ⟨houtcomes, hrecords⟩ := h
  refine ⟨?_, hrecords⟩
  simp only [books, hdrops, hrefusing, Bool.toNat_true, Bool.toNat_false] at houtcomes ⊢
  omega

theorem balanced_of_handed (h : m.books.Balanced m.isRefused) {item : WorkItem α}
    {more : List Record} (phase : m.producer = .handing item)
    (quiet : ∀ r ∈ more, r.event.isOutcome = false) :
    Books.Balanced m.isRefused { m.books with
      workers := m.workers ++ [⟨item, .queued⟩]
      log := m.log ++ more
      dispatched := m.dispatched + 1
      drops? := if m.verdict m.dispatched = .run then none else some m.dispatched } := by
  obtain ⟨houtcomes, hrecords⟩ := h
  have hdrops : m.producer.drops? = none := by rw [phase]; rfl
  have hrefusing : m.producer.pending?.isSome = false := by rw [phase]; rfl
  have hnew : ((if m.verdict m.dispatched = .run then none else some m.dispatched).any
      m.isRefused).toNat = (m.isRefused m.dispatched).toNat := by
    by_cases hrun : m.verdict m.dispatched = .run
    · rw [if_pos hrun, isRefused, hrun]
      rfl
    · rw [if_neg hrun]
      rfl
  have hrange : (List.range (m.dispatched + 1)).countP m.isRefused =
      (List.range m.dispatched).countP m.isRefused + (m.isRefused m.dispatched).toNat := by
    rw [List.range_succ, List.countP_append, List.countP_singleton]
    cases m.isRefused m.dispatched <;> rfl
  -- A worker in the queue is neither blamed nor pending.
  have hqueued (mark : WorkerPhase α → Bool) (hmark : mark .queued = false) :
      (m.workers ++ [(⟨item, .queued⟩ : Worker α)]).countP (mark ·.phase) =
        m.workers.countP (mark ·.phase) := by
    rw [List.countP_append, List.countP_singleton, hmark]
    rfl
  have hblamed := hqueued WorkerPhase.isBlamed rfl
  have hpending := hqueued WorkerPhase.isPending rfl
  refine ⟨?_, ?_⟩
  · simp only [books, hdrops, hrefusing, Option.any_none, Bool.toNat_false] at houtcomes ⊢
    rw [hblamed, hpending, hrange, hnew]
    omega
  · rw [Books.countP_append_quiet quiet isFirst_isOutcome,
      Books.countP_append_quiet quiet isLate_isOutcome, hblamed, hpending]
    exact hrecords

theorem balanced_step (h : m.books.Balanced m.isRefused) (hstep : FailureStep m m') :
    m'.books.Balanced m.isRefused := by
  cases hstep with
  | still more quiet hbooks =>
    rw [hbooks]
    refine ⟨h.outcomes, ?_⟩
    rw [Books.countP_append_quiet quiet isFirst_isOutcome,
      Books.countP_append_quiet quiet isLate_isOutcome]
    exact h.records
  | handed phase quiet hbooks =>
    rw [hbooks]
    exact balanced_of_handed h phase quiet
  | @calm n w p worker how hbooks =>
    obtain ⟨hblamed, hpending, -, -⟩ := how.keeps
    rw [hbooks]
    refine balanced_of_worker h worker rfl (List.append_nil _).symm rfl rfl ?_ ?_
    · rw [hblamed, hpending]
      rfl
    · rw [hblamed, hpending]
      exact congrArg (· + w.phase.isBlamed.toNat) (Nat.zero_add _)
  | @failed n w a f e worker phase tells hbooks =>
    have hblamed : (WorkerPhase.offering f e : WorkerPhase α).isBlamed = true := tells.isBlamed
    rw [hbooks]
    refine balanced_of_worker h worker rfl (List.append_nil _).symm rfl rfl ?_ ?_
    all_goals
      rw [hblamed, phase]
      rfl
  | @captured n w f e worker phase empty hbooks =>
    rw [hbooks]
    refine balanced_of_worker h worker rfl rfl rfl rfl ?_ ?_
    · rw [phase, empty]
      show 1 + m.cell.dropped + 0 + (WorkerPhase.leaving e : WorkerPhase α).isBlamed.toNat =
        0 + m.cell.dropped + 1 + _
      omega
    · rw [phase]
      rfl
  | @counted n w f e worker phase hbooks =>
    rw [hbooks]
    refine balanced_of_worker h worker rfl rfl rfl rfl ?_ ?_
    · rw [phase]
      show m.cell.captured.isSome.toNat + (m.cell.dropped + 1) + 0 +
          (WorkerPhase.leaving e : WorkerPhase α).isBlamed.toNat =
        m.cell.captured.isSome.toNat + m.cell.dropped + 1 + _
      omega
    · rw [phase]
      rfl
  | @closed n w e worker phase kept hbooks =>
    obtain ⟨hfirst, hlate, -⟩ := m.countP_endRecords e
    rw [hbooks]
    refine balanced_of_worker h worker rfl rfl rfl rfl ?_ ?_
    · rw [phase]
      rfl
    · rw [phase, hfirst, hlate]
      rfl
  | @forgotten n w e worker phase held hbooks =>
    have hdrops : m.producer.drops? = some n := by rw [held]; rfl
    have hrefusing : m.producer.pending?.isSome = false := by rw [held]; rfl
    rw [hbooks]
    refine balanced_of_worker h worker rfl (List.append_nil _).symm rfl ?_ ?_ ?_
    · rw [hdrops, hrefusing]
      exact Nat.add_comm 0 _
    · rw [phase]
      rfl
    · rw [phase]
      exact congrArg (· + _) (Nat.zero_add _)
  | refusalCaptured phase empty hbooks =>
    rw [hbooks]
    refine balanced_of_refusal h (by rw [phase]; rfl) (by rw [phase]; rfl) ?_
    rw [empty]
    simp only [Option.isSome_some, Option.isSome_none, Bool.toNat_true, Bool.toNat_false]
    omega
  | refusalCounted phase hbooks =>
    rw [hbooks]
    exact balanced_of_refusal h (by rw [phase]; rfl) (by rw [phase]; rfl) rfl

end

end Machine

/-! ## What the backend does not run never begins -/

/-- How a worker stands if the backend does not run its item: the task is being dropped, or it was
dropped before it began. In `Untouched` this keeps refusals and failures of workers apart, so that
none is counted as both. -/
def WorkerPhase.UntouchedBy (verdict : Nat → Verdict) (drops? : Option Nat) (n : Nat)
    (p : WorkerPhase α) : Prop :=
  verdict n ≠ .run →
    drops? = some n ∧ (p = .queued ∨ p = .leaving .unstarted ∨ p = .closing .unstarted) ∨
      drops? ≠ some n ∧ p = .ended .unstarted

theorem WorkerPhase.UntouchedBy.run_of_begun {verdict : Nat → Verdict} {drops? : Option Nat}
    {n : Nat} {p : WorkerPhase α} (h : p.UntouchedBy verdict drops? n) (hqueued : p ≠ .queued)
    (hunstarted : p.ending? ≠ some .unstarted) : verdict n = .run := by
  by_contra hrun
  rcases h hrun with ⟨-, rfl | rfl | rfl⟩ | ⟨-, rfl⟩
  · exact hqueued rfl
  all_goals exact hunstarted rfl

theorem WorkerPhase.UntouchedBy.of_kept {verdict : Nat → Verdict} {drops? : Option Nat} {n : Nat}
    {p : WorkerPhase α} (h : p.UntouchedBy verdict drops? n) (hrun : verdict n ≠ .run)
    (kept : drops? ≠ some n) : p = .ended .unstarted := by
  rcases h hrun with ⟨hdrops, -⟩ | ⟨-, hended⟩
  · exact absurd hdrops kept
  · exact hended

theorem WorkerPhase.UntouchedBy.ending_eq {verdict : Nat → Verdict} {drops? : Option Nat} {n : Nat}
    {p : WorkerPhase α} (h : p.UntouchedBy verdict drops? n) (hrun : verdict n ≠ .run) {e : Ending}
    (he : p.ending? = some e) : e = .unstarted := by
  by_contra hne
  refine hrun (h.run_of_begun ?_ ?_)
  · rintro rfl
    cases he
  · rw [he]
    exact fun heq => hne (Option.some.inj heq)

namespace Machine

/-- Every item that the backend does not run is `UntouchedBy` it. -/
def Untouched (m : Machine α) : Prop :=
  ∀ (n : Nat) (w : Worker α), m.workers[n]? = some w →
    w.phase.UntouchedBy m.verdict m.producer.drops? n

namespace Untouched

variable {m m' : Machine α}

theorem new (setup : Setup α) (scope : Scope) : (Machine.new setup scope).Untouched :=
  fun _ _ hw => by cases hw

theorem change (h : m.Untouched) {n : Nat} {w : Worker α} {p : WorkerPhase α}
    (hw : m.workers[n]? = some w) (verdict : m'.verdict = m.verdict)
    (workers : m'.workers = (m.setPhase n p).workers)
    (drops : m'.producer.drops? = m.producer.drops?)
    (hp : w.phase.UntouchedBy m.verdict m.producer.drops? n →
      p.UntouchedBy m.verdict m.producer.drops? n) : m'.Untouched := by
  intro k w' hw'
  rw [verdict, drops]
  rw [workers] at hw'
  rcases worker_of_setPhase hw hw' with ⟨rfl, rfl⟩ | ⟨-, hw'⟩
  · exact hp (h _ w hw)
  · exact h k w' hw'

theorem same (h : m.Untouched) (verdict : m'.verdict = m.verdict) (workers : m'.workers = m.workers)
    (drops : m'.producer.drops? = m.producer.drops?) : m'.Untouched := by
  intro n w hw
  rw [verdict, drops]
  exact h n w (workers ▸ hw)

theorem begun (h : m.Untouched) {n : Nat} {w : Worker α} {p : WorkerPhase α}
    (hw : m.workers[n]? = some w) (verdict : m'.verdict = m.verdict)
    (workers : m'.workers = (m.setPhase n p).workers)
    (drops : m'.producer.drops? = m.producer.drops?) (hqueued : w.phase ≠ .queued)
    (hunstarted : w.phase.ending? ≠ some .unstarted) : m'.Untouched :=
  h.change hw verdict workers drops fun huntouched hrun =>
    absurd (huntouched.run_of_begun hqueued hunstarted) hrun

theorem handed (h : m.Untouched) (numbered : m.dispatched = m.workers.length)
    (idle : m.producer.drops? = none) {item : WorkItem α} (verdict : m'.verdict = m.verdict)
    (workers : m'.workers = m.workers ++ [⟨item, .queued⟩])
    (drops : m'.producer.drops? =
      if m.verdict m.dispatched = .run then none else some m.dispatched) : m'.Untouched := by
  intro n w hw hrun
  rw [workers] at hw
  rw [verdict] at hrun
  rw [drops]
  rcases getElem?_concat_cases hw with ⟨rfl, rfl⟩ | hold
  · rw [← numbered] at hrun ⊢
    rw [if_neg hrun]
    exact Or.inl ⟨rfl, Or.inl rfl⟩
  · have hne : n ≠ m.dispatched := by
      rw [numbered]
      exact Nat.ne_of_lt (List.getElem?_eq_some_iff.mp hold).1
    refine Or.inr ⟨?_, (h n w hold).of_kept hrun (by simp [idle])⟩
    split
    · nofun
    · exact fun heq => hne (Option.some.inj heq).symm

theorem forgotten (h : m.Untouched) {n : Nat} {w : Worker α} {e : Ending}
    (hw : m.workers[n]? = some w) (phase : w.phase = .closing e)
    (held : m.producer.drops? = some n) (verdict : m'.verdict = m.verdict)
    (workers : m'.workers = (m.setPhase n (.ended e)).workers)
    (drops : m'.producer.drops? = none) : m'.Untouched := by
  intro k w' hw' hrun
  rw [verdict] at hrun
  rw [workers] at hw'
  rw [drops]
  refine Or.inr ⟨nofun, ?_⟩
  rcases worker_of_setPhase hw hw' with ⟨rfl, rfl⟩ | ⟨hk, hw'⟩
  · have hend : e = .unstarted := (h _ w hw).ending_eq hrun (by rw [phase]; rfl)
    rw [hend]
  · refine (h k w' hw').of_kept hrun ?_
    rw [held]
    exact fun heq => hk (Option.some.inj heq).symm

end Untouched

theorem CalmStep.untouched {m : Machine α} {n : Nat} {p q : WorkerPhase α} (how : m.CalmStep n p q)
    (h : p.UntouchedBy m.verdict m.producer.drops? n) :
    q.UntouchedBy m.verdict m.producer.drops? n := by
  intro hrun
  cases how with
  | begin kept => cases h.of_kept hrun kept
  | goOn | returned | late => exact absurd (h.run_of_begun nofun nofun) hrun
  | left =>
    rcases h hrun with ⟨hdrops, hp | hp | hp⟩ | ⟨-, hp⟩
    all_goals cases hp
    exact Or.inl ⟨hdrops, Or.inr (Or.inr rfl)⟩
  | unstarted =>
    rcases h hrun with ⟨hdrops, -⟩ | ⟨-, hended⟩
    · exact Or.inl ⟨hdrops, Or.inr (Or.inl rfl)⟩
    · cases hended

theorem Untouched.step {m m' : Machine α} (h : m.Untouched)
    (numbered : m.dispatched = m.workers.length) (verdict : m'.verdict = m.verdict)
    (hstep : FailureStep m m') : m'.Untouched := by
  cases hstep with
  | still _ _ books | refusalCaptured _ _ books | refusalCounted _ books =>
    exact h.same verdict (congrArg Books.workers books) (congrArg Books.drops? books)
  | handed phase _ books =>
    exact h.handed numbered (by rw [phase]; rfl) verdict (congrArg Books.workers books)
      (congrArg Books.drops? books)
  | calm worker how books =>
    exact h.change worker verdict (congrArg Books.workers books) (congrArg Books.drops? books)
      how.untouched
  | failed worker phase _ books | captured worker phase _ books | counted worker phase books =>
    exact h.begun worker verdict (congrArg Books.workers books) (congrArg Books.drops? books)
      (by rw [phase]; nofun) (by rw [phase]; nofun)
  | closed worker phase kept books =>
    refine h.change worker verdict (congrArg Books.workers books) (congrArg Books.drops? books) ?_
    intro hw hrun
    have hended := hw.of_kept hrun kept
    rw [phase] at hended
    cases hended
  | forgotten worker phase held books =>
    exact h.forgotten worker phase (by rw [held]; rfl) verdict (congrArg Books.workers books)
      (congrArg Books.drops? books)

end Machine

end WorkBundle
