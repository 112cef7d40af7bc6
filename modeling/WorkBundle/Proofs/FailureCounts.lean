import WorkBundle.Proofs.FailureLedger
import WorkBundle.Proofs.Barrier
import WorkBundle.Proofs.Dropped

/-!
# Every failure is counted once

The balance of failures holds along every run, whatever the interleaving, and with it that the log
tells of each worker just as it has ended (`Told`) and that the captured failure is a worker's or a
refusal (`Attributed`). Once every task has ended nothing is on its way any more, and the sums are
those of what was captured and what was counted.
-/

set_option autoImplicit false

namespace WorkBundle

variable {α : Type}

namespace Machine

/-! ## What is in the log is what has happened -/

/-- What the log tells as the failure of the worker with this number, whichever of the events of
`report?` it is. -/
def reportsOf (m : Machine α) (n : Nat) : List String := m.log.filterMap (·.event.report? n)

def firstRecords (m : Machine α) : List Record := m.log.filter (·.event.isFirst)

/-- The `firstRecord` that is due for the captured failure: one if it is a worker's, and none if it
is a refusal, which `submit` puts into the cell without a word to the log. -/
def dueRecords (m : Machine α) : List Record :=
  m.cell.captured.elim [] fun f =>
    if m.verdict f.item = .refuse then [] else [m.firstRecord f.item f]

theorem filterMap_quiet {more : List Record} (quiet : ∀ r ∈ more, r.event.isOutcome = false)
    (n : Nat) : more.filterMap (·.event.report? n) = [] := by
  refine List.filterMap_eq_nil_iff.mpr fun r hr => ?_
  have hquiet := quiet r hr
  cases hevent : r.event <;> rw [hevent] at hquiet <;> first | rfl | cases hquiet

theorem filter_quiet {more : List Record} (quiet : ∀ r ∈ more, r.event.isOutcome = false) :
    more.filter (·.event.isFirst) = [] := by
  refine List.filter_eq_nil_iff.mpr fun r hr htrue => ?_
  have hquiet := quiet r hr
  rw [isFirst_isOutcome _ htrue] at hquiet
  cases hquiet

theorem reports_endRecords (m : Machine α) (e : Ending) (n : Nat) :
    (m.endRecords e).filterMap (·.event.report? n) = [] ∧
      (m.endRecords e).filter (·.event.isFirst) = [] := by
  unfold endRecords
  cases e with
  | failed f => cases m.setup.backend.reportsAs <;> exact ⟨rfl, rfl⟩
  | returned | lost | unstarted => exact ⟨rfl, rfl⟩

/-- Every worker is told of as it has ended (`reportsOf`), and the captured failure if it is a
worker's. The fields are equations between the log and the phases, so that a step proves them by
showing what it appends. -/
structure Told (m : Machine α) : Prop where
  reports : ∀ n, m.reportsOf n = m.workers[n]?.elim [] (·.phase.reports n)
  first : m.firstRecords = m.dueRecords
  tasks : m.tally.tasksFailed = m.workers.countP (·.phase.isFailedTask)
  ends : m.log.countP (·.event.isTaskFailed) =
    if m.setup.backend.reportsAs.isSome then m.tally.tasksFailed else 0

namespace Told

variable {m m' : Machine α}

theorem new (setup : Setup α) (scope : Scope) : (Machine.new setup scope).Told where
  reports := fun n => rfl
  first := rfl
  tasks := rfl
  ends := by
    split <;> rfl

theorem reports_change (h : m.Told) {n : Nat} {w : Worker α} {p : WorkerPhase α}
    {more : List Record} (hw : m.workers[n]? = some w)
    (workers : m'.workers = (m.setPhase n p).workers) (log : m'.log = m.log ++ more)
    (others : ∀ k, k ≠ n → more.filterMap (·.event.report? k) = [])
    (own : w.phase.reports n ++ more.filterMap (·.event.report? n) = p.reports n) (k : Nat) :
    m'.reportsOf k = m'.workers[k]?.elim [] (·.phase.reports k) := by
  rw [reportsOf, log, List.filterMap_append, workers]
  have hk := h.reports k
  rw [reportsOf] at hk
  rw [hk]
  by_cases hkn : k = n
  · subst hkn
    rw [setPhase_self hw, hw]
    exact own
  · rw [others k hkn, List.append_nil, setPhase_other hkn]

theorem dueRecords_congr (setup : m'.setup = m.setup)
    (captured : m'.cell.captured = m.cell.captured) : m'.dueRecords = m.dueRecords := by
  unfold dueRecords firstRecord verdict
  rw [setup, captured]

theorem same (h : m.Told) {more : List Record} (setup : m'.setup = m.setup)
    (captured : m'.cell.captured = m.cell.captured) (log : m'.log = m.log ++ more)
    (tasks : m'.tally.tasksFailed = m.tally.tasksFailed)
    (failed : m'.workers.countP (·.phase.isFailedTask) = m.workers.countP (·.phase.isFailedTask))
    (first : more.filter (·.event.isFirst) = [])
    (ends : more.countP (·.event.isTaskFailed) = 0)
    (reports : ∀ n, m'.reportsOf n = m'.workers[n]?.elim [] (·.phase.reports n)) : m'.Told where
  reports := reports
  first := by
    rw [firstRecords, log, List.filter_append, first, List.append_nil,
      dueRecords_congr setup captured]
    exact h.first
  tasks := by rw [tasks, failed, h.tasks]
  ends := by rw [log, List.countP_append, ends, setup, tasks, Nat.add_zero, h.ends]

theorem failed_setPhase {n : Nat} {w : Worker α} {p : WorkerPhase α} (hw : m.workers[n]? = some w)
    (hp : p.isFailedTask = w.phase.isFailedTask) :
    (m.setPhase n p).workers.countP (·.phase.isFailedTask) =
      m.workers.countP (·.phase.isFailedTask) := by
  have hcount := countP_setPhase WorkerPhase.isFailedTask hw p
  rw [hp] at hcount
  omega

theorem change (h : m.Told) {n : Nat} {w : Worker α} {p : WorkerPhase α}
    (hw : m.workers[n]? = some w) (setup : m'.setup = m.setup) (cell : m'.cell = m.cell)
    (log : m'.log = m.log) (tasks : m'.tally.tasksFailed = m.tally.tasksFailed)
    (workers : m'.workers = (m.setPhase n p).workers)
    (hfailed : p.isFailedTask = w.phase.isFailedTask)
    (hreports : p.reports n = w.phase.reports n) : m'.Told := by
  have log : m'.log = m.log ++ [] := by rw [log, List.append_nil]
  refine h.same setup (congrArg FailureCell.captured cell) log tasks
    (by rw [workers, failed_setPhase hw hfailed]) rfl rfl ?_
  refine h.reports_change hw workers log (fun _ _ => rfl) ?_
  rw [hreports]
  exact List.append_nil _

theorem quiet (h : m.Told) {more : List Record} (setup : m'.setup = m.setup)
    (captured : m'.cell.captured = m.cell.captured) (log : m'.log = m.log ++ more)
    (tasks : m'.tally.tasksFailed = m.tally.tasksFailed)
    (failed : m'.workers.countP (·.phase.isFailedTask) = m.workers.countP (·.phase.isFailedTask))
    (quiet : ∀ r ∈ more, r.event.isOutcome = false)
    (reports : ∀ n : Nat, m.workers[n]?.elim [] (·.phase.reports n) =
      m'.workers[n]?.elim [] (·.phase.reports n)) : m'.Told := by
  refine h.same setup captured log tasks failed (filter_quiet quiet)
    (Books.countP_quiet quiet isTaskFailed_isOutcome) fun n => ?_
  rw [reportsOf, log, List.filterMap_append, filterMap_quiet quiet, List.append_nil]
  exact (h.reports n).trans (reports n)

theorem reports_concat (workers : List (Worker α)) (item : WorkItem α) (n : Nat) :
    workers[n]?.elim [] (·.phase.reports n) =
      (workers ++ [⟨item, .queued⟩])[n]?.elim [] (·.phase.reports n) := by
  by_cases hn : n < workers.length
  · rw [List.getElem?_append_left hn]
  · rw [List.getElem?_eq_none (by omega)]
    cases hw : (workers ++ [⟨item, .queued⟩])[n]? with
    | none => rfl
    | some w =>
      rcases getElem?_concat_cases hw with ⟨-, rfl⟩ | hold
      · rfl
      · exact absurd (List.getElem?_eq_some_iff.mp hold).1 hn

theorem reports_leaving (h : m.Told) {n : Nat} {w : Worker α} {f : Failure} {e : Ending}
    {r : Record} (hw : m.workers[n]? = some w) (phase : w.phase.reports n = [])
    (workers : m'.workers = (m.setPhase n (.leaving e)).workers) (log : m'.log = m.log ++ [r])
    (tells : e.Tells n f)
    (record : ∀ k, r.event.report? k = if n = k then some f.message else none) (k : Nat) :
    m'.reportsOf k = m'.workers[k]?.elim [] (·.phase.reports k) := by
  refine h.reports_change hw workers log (fun k hk => ?_) ?_ k
  · rw [List.filterMap_cons_none (by rw [record, if_neg (Ne.symm hk)]), List.filterMap_nil]
  · rw [phase, List.filterMap_cons_some (by rw [record, if_pos rfl])]
    exact tells.reports_eq.symm

theorem captured (h : m.Told) {n : Nat} {w : Worker α} {f : Failure} {e : Ending}
    (hw : m.workers[n]? = some w) (phase : w.phase = .offering f e) (tells : e.Tells n f)
    (hrun : m.verdict n = .run) (empty : m.cell.captured = none) (setup : m'.setup = m.setup)
    (workers : m'.workers = (m.setPhase n (.leaving e)).workers)
    (cell : m'.cell.captured = some f) (log : m'.log = m.log ++ [m.firstRecord n f])
    (tasks : m'.tally.tasksFailed = m.tally.tasksFailed) : m'.Told where
  reports :=
    h.reports_leaving hw (by rw [phase]; rfl) workers log tells fun _ => rfl
  first := by
    -- Nothing was captured before, so nothing was told of a first failure.
    have hnone : m.firstRecords = [] := by
      rw [h.first, dueRecords, empty]
      rfl
    have hdue : m'.dueRecords = [m.firstRecord n f] := by
      rw [dueRecords, cell, Option.elim_some, tells.item_eq, verdict, firstRecord, setup,
        ← verdict, hrun, if_neg (by decide), ← firstRecord]
    rw [firstRecords, log, List.filter_append, ← firstRecords, hnone, hdue]
    rfl
  tasks := by rw [tasks, workers, failed_setPhase hw (by rw [phase]; rfl), h.tasks]
  ends := by
    rw [log, List.countP_append, setup, tasks, h.ends]
    rfl

theorem refused (h : m.Told) {f : Failure} (hrefused : m.verdict f.item = .refuse)
    (empty : m.cell.captured = none) (setup : m'.setup = m.setup)
    (workers : m'.workers = m.workers) (cell : m'.cell.captured = some f) (log : m'.log = m.log)
    (tasks : m'.tally.tasksFailed = m.tally.tasksFailed) : m'.Told where
  reports := fun n => by
    rw [reportsOf, log, workers]
    exact h.reports n
  first := by
    rw [firstRecords, log, ← firstRecords, h.first, dueRecords, dueRecords, empty, cell,
      Option.elim_some, verdict, setup, ← verdict, hrefused]
    rfl
  tasks := by rw [tasks, workers, h.tasks]
  ends := by rw [log, setup, tasks, h.ends]

theorem closed (h : m.Told) {n : Nat} {w : Worker α} {e : Ending} (hw : m.workers[n]? = some w)
    (phase : w.phase = .closing e) (setup : m'.setup = m.setup) (cell : m'.cell = m.cell)
    (workers : m'.workers = (m.setPhase n (.ended e)).workers)
    (log : m'.log = m.log ++ m.endRecords e)
    (tasks : m'.tally.tasksFailed = m.tally.tasksFailed + e.isFailed.toNat) : m'.Told where
  reports := by
    refine h.reports_change hw workers log (fun k _ => (m.reports_endRecords e k).1) ?_
    rw [phase, (m.reports_endRecords e n).1]
    exact List.append_nil _
  first := by
    rw [firstRecords, log, List.filter_append, (m.reports_endRecords e 0).2, List.append_nil,
      dueRecords_congr setup (congrArg FailureCell.captured cell)]
    exact h.first
  tasks := by
    have hcount := countP_setPhase WorkerPhase.isFailedTask hw (.ended e)
    rw [phase] at hcount
    rw [tasks, workers, h.tasks]
    exact hcount.symm
  ends := by
    rw [log, List.countP_append, (m.countP_endRecords e).2.2, setup, tasks, h.ends]
    split <;> rfl

theorem step (h : m.Told) (ha : m.Accounted) (hu : m.Untouched) (hj : m.Judged m.producer)
    (setup : m'.setup = m.setup) (hstep : FailureStep m m') : m'.Told := by
  cases hstep with
  | still more quiet books =>
    have workers : m'.workers = m.workers := congrArg Books.workers books
    exact h.quiet setup (congrArg (FailureCell.captured ·.cell) books) (congrArg Books.log books)
      (congrArg Books.tasksFailed books) (by rw [workers]) quiet fun _ => by rw [workers]
  | @handed item more _ quiet books =>
    have workers : m'.workers = m.workers ++ [⟨item, .queued⟩] := congrArg Books.workers books
    refine h.quiet setup (congrArg (FailureCell.captured ·.cell) books) (congrArg Books.log books)
      (congrArg Books.tasksFailed books) ?_ quiet fun n => ?_
    · rw [workers, List.countP_append]
      rfl
    · rw [workers]
      exact reports_concat m.workers item n
  | calm worker how books =>
    obtain ⟨-, -, hfailed, hreports⟩ := how.keeps
    exact h.change worker setup (congrArg Books.cell books) (congrArg Books.log books)
      (congrArg Books.tasksFailed books) (congrArg Books.workers books) hfailed hreports
  | failed worker phase _ books =>
    exact h.change worker setup (congrArg Books.cell books) (congrArg Books.log books)
      (congrArg Books.tasksFailed books) (congrArg Books.workers books) (by rw [phase]; rfl)
      (by rw [phase]; rfl)
  | @captured n w f e worker phase empty books =>
    have tells : e.Tells n f := by
      have haccounts := ha n w worker
      rw [phase] at haccounts
      exact haccounts
    have hrun : m.verdict n = .run :=
      (hu n w worker).run_of_begun (by simp [phase]) (by simp [phase, WorkerPhase.ending?])
    exact h.captured worker phase tells hrun empty setup (congrArg Books.workers books)
      (congrArg (FailureCell.captured ·.cell) books) (congrArg Books.log books)
      (congrArg Books.tasksFailed books)
  | @counted n w f e worker phase books =>
    have workers : m'.workers = (m.setPhase n (.leaving e)).workers := congrArg Books.workers books
    have log : m'.log = m.log ++ [m.lateRecord n f] := congrArg Books.log books
    have tells : e.Tells n f := by
      have haccounts := ha n w worker
      rw [phase] at haccounts
      exact haccounts.1
    refine h.same setup (congrArg (FailureCell.captured ·.cell) books) log
      (congrArg Books.tasksFailed books) ?_ rfl rfl ?_
    · rw [workers, failed_setPhase worker (by rw [phase]; rfl)]
    · exact h.reports_leaving worker (by rw [phase]; rfl) workers log tells fun _ => rfl
  | closed worker phase _ books =>
    exact h.closed worker phase setup (congrArg Books.cell books) (congrArg Books.workers books)
      (congrArg Books.log books) (congrArg Books.tasksFailed books)
  | @forgotten n w e worker phase held books =>
    -- The backend drops the task, so it has not begun and cannot have failed.
    have hrun : m.verdict n ≠ .run := by
      rw [held] at hj
      exact hj
    obtain rfl : e = .unstarted := (hu n w worker).ending_eq hrun (by rw [phase]; rfl)
    exact h.change worker setup (congrArg Books.cell books) (congrArg Books.log books)
      (congrArg Books.tasksFailed books) (congrArg Books.workers books) (by rw [phase]; rfl)
      (by rw [phase]; rfl)
  | @refusalCaptured f phase empty books =>
    have hrefused : m.verdict f.item = .refuse := by
      rw [phase] at hj
      exact hj.1
    exact h.refused hrefused empty setup (congrArg Books.workers books)
      (congrArg (FailureCell.captured ·.cell) books) (congrArg Books.log books)
      (congrArg Books.tasksFailed books)
  | refusalCounted _ books =>
    have workers : m'.workers = m.workers := congrArg Books.workers books
    have log : m'.log = m.log ++ [] := by
      rw [List.append_nil]
      exact congrArg Books.log books
    exact h.quiet setup (congrArg (FailureCell.captured ·.cell) books) log
      (congrArg Books.tasksFailed books) (by rw [workers]) (by simp) fun _ => by rw [workers]

end Told

/-! ## Where the captured failure comes from -/

/-- The failure is that of a worker that has its `fate?`. This is asked instead of `ending?`, since
a failure is captured before the worker that offered it has ended. -/
def BlamesWorker (m : Machine α) (f : Failure) : Prop :=
  ∃ w e, m.workers[f.item]? = some w ∧ w.phase.fate? = some e ∧ e.Tells f.item f

def Attributed (m : Machine α) : Prop :=
  ∀ f, m.cell.captured = some f → m.verdict f.item = .refuse ∨ m.BlamesWorker f

theorem BlamesWorker.step {m m' : Machine α} {move : Move α} {f : Failure} (h : m.BlamesWorker f)
    (ht : Transition m move m') : m'.BlamesWorker f := by
  obtain ⟨w, e, hw, hfate, htells⟩ := h
  obtain ⟨w', hw', -, hfate'⟩ := worker_step PhaseStep.fate_eq ht hw hfate
  exact ⟨w', e, hw', hfate', htells⟩

theorem attributed_step {m m' : Machine α} {move : Move α} (h : m.Attributed) (ha : m.Accounted)
    (hj : m.Judged m.producer) (ht : Transition m move m') : m'.Attributed := by
  obtain ⟨hcell, hlater⟩ := cellStep ht
  have hverdict (n : Nat) : m'.verdict n = m.verdict n := by rw [verdict, hlater.setup]; rfl
  intro f hf
  rw [hverdict]
  cases hcell with
  | same cell => exact (h f (cell ▸ hf)).imp_right fun hw => hw.step ht
  | @worker n w g e _ worker phase full =>
    obtain rfl : g = f := Option.some.inj (full.symm.trans hf)
    have htells := ha n w worker
    rw [phase] at htells
    have hitem : g.item = n := htells.item_eq
    have hblames : m.BlamesWorker g :=
      ⟨w, e, hitem ▸ worker, by rw [phase]; rfl, hitem ▸ htells⟩
    exact Or.inr (hblames.step ht)
  | @refusal g _ phase _ full =>
    obtain rfl : g = f := Option.some.inj (full.symm.trans hf)
    rw [phase] at hj
    exact Or.inl hj.1

theorem Untouched.run_of_blames {m : Machine α} (h : m.Untouched) {f : Failure}
    (hf : m.BlamesWorker f) : m.verdict f.item = .run := by
  obtain ⟨w, e, hw, hfate, htells⟩ := hf
  refine (h _ w hw).run_of_begun ?_ ?_
  · intro hp
    rw [hp] at hfate
    cases hfate
  · intro hend
    rw [WorkerPhase.fate?_of_ending? hend] at hfate
    cases hfate
    exact htells

/-! ## Whole runs -/

/-- The invariants of the ledger, for a state. `Balanced` speaks of the counters and `Told` of the
log; `Attributed` connects the two, since the cell does not say who filled it. -/
structure Reckoned (m : Machine α) : Prop where
  untouched : m.Untouched
  balanced : m.books.Balanced m.isRefused
  told : m.Told
  attributed : m.Attributed

/-- Workers whose code has returned an error. They are counted by `fate?`, which they have before
the cell or the log knows. -/
def failedWorkers (m : Machine α) : Nat :=
  m.workers.countP fun w => w.phase.fate?.any Ending.isFailed

/-- Workers that had begun and were `lost`: they panicked, or their task was dropped. The guard of a
task reports both as a panic. -/
def lostWorkers (m : Machine α) : Nat :=
  m.workers.countP fun w => w.phase.fate?.any Ending.isLost

/-- Items that were handed over and refused. These are counted by `verdict` and not by phase: a
refused item has a worker as well, which ends like that of a task that was dropped. -/
def refusedItems (m : Machine α) : Nat := (List.range m.dispatched).countP m.isRefused

theorem countP_isBlamed (m : Machine α) :
    m.workers.countP (·.phase.isBlamed) = m.failedWorkers + m.lostWorkers := by
  unfold failedWorkers lostWorkers
  induction m.workers with
  | nil => rfl
  | cons w ws ih =>
    rw [List.countP_cons, List.countP_cons, List.countP_cons, ih]
    unfold WorkerPhase.isBlamed
    cases w.phase.fate? with
    | none => simp
    | some e =>
      cases e <;> simp [Ending.isFailed, Ending.isLost] <;> omega

section

variable {setup : Setup α} {scope : Scope} {moves : List (Move α)} {m : Machine α}

theorem reckoned (hunpolled : ∀ n, (setup.backend.receive n).polled = false)
    (hrun : (Machine.new setup scope).run moves = some m) : m.Reckoned := by
  refine run_induction (Q := fun _ m => m.Reckoned) ?_ ?_ hrun
  · exact ⟨Untouched.new setup scope, ⟨rfl, rfl⟩, Told.new setup scope, nofun⟩
  · intro moves m m' move hrun h hstep
    have ht := transition_of_step hstep
    have hj := judged_run hrun
    have ha := accounted_run hrun
    have hnumbered := (drains hrun).orderly.numbered
    have hsetup := setup_run hrun
    have hsame : m'.setup = m.setup := (cellStep ht).2.setup
    have hverdict : m'.verdict = m.verdict := by
      funext n
      rw [verdict, hsame]
      rfl
    have hrefused : m'.isRefused = m.isRefused := by
      funext n
      rw [isRefused, hverdict]
      rfl
    have hpolled (n : Nat) : m.producer ≠ .polling n := by
      intro hp
      rw [hp, Judged, hsetup, hunpolled] at hj
      cases hj
    have hfailure : FailureStep m m' := failureStep hpolled (by rw [hsetup]; exact hunpolled _) ht
    exact ⟨h.untouched.step hnumbered hverdict hfailure,
      hrefused ▸ balanced_step h.balanced hfailure,
      h.told.step ha h.untouched hj hsame hfailure, attributed_step h.attributed ha hj ht⟩

theorem started_or_empty (hrun : (Machine.new setup scope).run moves = some m)
    (hopen : Move.call .finish ∉ moves) : m.stage = .started ∨ m.workers = [] := by
  refine run_induction (Q := fun moves m => Move.call .finish ∉ moves →
    m.stage = .started ∨ m.workers = []) ?_ ?_ hrun hopen
  · exact fun _ => Or.inr rfl
  · intro moves m m' move hrun ih hstep hopen
    have ht := transition_of_step hstep
    have hord := (drains hrun).orderly
    have hmove : move ≠ .call .finish := fun heq => hopen (heq ▸ by simp)
    rcases ih fun hmem => hopen (List.mem_append_left _ hmem) with hs | hempty
    · exact Or.inl (hord.started_after ht hs hmove)
    · cases workersStep ht with
      | same workers => exact Or.inr (workers.trans hempty)
      | more phase =>
        have hs := hord.stage .started (by rw [phase]; rfl)
        exact Or.inl (hord.started_after ht hs hmove)
      | change worker =>
        rw [hempty] at worker
        cases worker

theorem Reckoned.not_dropping (h : m.Reckoned)
    (hrun : (Machine.new setup scope).run moves = some m)
    (hended : ∀ w ∈ m.workers, ∃ e, w.phase = .ended e) : m.producer.drops? = none := by
  cases hp : m.producer with
  | dropping n =>
    have hserves := (drains hrun).orderly.serves
    have hj := judged_run hrun
    rw [hp] at hserves hj
    obtain ⟨earlier, item, hitems, hlength, -⟩ := hserves
    have hlt : n < m.workers.length := by
      have hcount := congrArg List.length hitems
      simp only [items, List.length_map, List.length_append, List.length_singleton] at hcount
      omega
    obtain ⟨e, he⟩ := hended _ (List.getElem_mem hlt)
    have hdrops : m.producer.drops? = some n := by rw [hp]; rfl
    rcases h.untouched n _ (List.getElem?_eq_getElem hlt) hj with ⟨-, hq⟩ | ⟨hq, -⟩
    · simp [he] at hq
    · exact absurd hdrops hq
  | _ => rfl

theorem Reckoned.silent_of_refused (h : m.Reckoned)
    (hended : ∀ w ∈ m.workers, ∃ e, w.phase = .ended e) {n : Nat}
    (hrefused : m.verdict n = .refuse) :
    m.reportsOf n = [] := by
  rw [h.told.reports n]
  cases hw : m.workers[n]? with
  | none => rfl
  | some w =>
    have hrun : m.verdict n ≠ .run := by rw [hrefused]; decide
    obtain ⟨e, he⟩ := hended w (List.mem_of_getElem? hw)
    have hunstarted : e = .unstarted :=
      (h.untouched n w hw).ending_eq hrun (by rw [he]; rfl)
    rw [Option.elim_some, he, hunstarted]
    rfl

/-- Where every task has ended and no refusal is on its way, the sums of `Balanced` are those of
what was captured and what was counted. Before that a failure can be on its way, offered and in
neither. -/
theorem Reckoned.sums (h : m.Reckoned) (hrun : (Machine.new setup scope).run moves = some m)
    (hended : ∀ w ∈ m.workers, ∃ e, w.phase = .ended e)
    (hsettled : m.producer.pending? = none) :
    m.failedWorkers + m.lostWorkers + m.refusedItems =
        m.cell.captured.isSome.toNat + m.cell.dropped ∧
      m.log.countP (·.event.isFirst) + m.log.countP (·.event.isLate) =
        m.failedWorkers + m.lostWorkers := by
  have hpending : m.workers.countP (·.phase.isPending) = 0 := by
    refine List.countP_eq_zero.mpr fun w hw => ?_
    obtain ⟨e, he⟩ := hended w hw
    rw [he]
    exact Bool.false_ne_true
  have houtcomes := h.balanced.outcomes
  have hrecords := h.balanced.records
  simp only [books] at houtcomes hrecords
  rw [hpending, h.not_dropping hrun hended, hsettled, countP_isBlamed] at houtcomes
  rw [hpending, countP_isBlamed] at hrecords
  exact ⟨houtcomes, hrecords⟩

/-- What the engine tells about itself before its finish is called is what is in its cell. A bundle
that is still `created` tells nothing, but then there was nothing to tell. -/
theorem Reckoned.tells_cell (h : m.Reckoned) (hrun : (Machine.new setup scope).run moves = some m)
    (hended : ∀ w ∈ m.workers, ∃ e, w.phase = .ended e) (hsettled : m.producer.pending? = none)
    (hopen : Move.call .finish ∉ moves) :
    m.failure = m.cell.captured ∧ m.droppedFailures = m.cell.dropped ∧
      m.dispatchedCount = m.dispatched := by
  unfold failure droppedFailures dispatchedCount
  rcases started_or_empty hrun hopen with hs | hempty
  · rw [hs]
    exact ⟨rfl, rfl, rfl⟩
  · have hzero : m.dispatched = 0 := by
      rw [(drains hrun).orderly.numbered, hempty]
      rfl
    have hnobody : m.failedWorkers = 0 ∧ m.lostWorkers = 0 ∧ m.refusedItems = 0 := by
      rw [failedWorkers, lostWorkers, refusedItems, hempty, hzero]
      exact ⟨rfl, rfl, rfl⟩
    have houtcomes := (h.sums hrun hended hsettled).1
    rw [hnobody.1, hnobody.2.1, hnobody.2.2] at houtcomes
    have hdropped : m.cell.dropped = 0 := by omega
    have hnone : m.cell.captured = none := by
      cases hc : m.cell.captured with
      | none => rfl
      | some f =>
        rw [hc] at houtcomes
        simp only [Option.isSome_some, Bool.toNat_true] at houtcomes
        omega
    rw [hnone, hdropped, hzero]
    cases m.stage <;> exact ⟨rfl, rfl, rfl⟩

theorem countP_isFailedTask (hended : ∀ w ∈ m.workers, ∃ e, w.phase = .ended e) :
    m.workers.countP (·.phase.isFailedTask) = m.failedWorkers := by
  refine List.countP_congr fun w hw => ?_
  obtain ⟨e, he⟩ := hended w hw
  rw [he]
  exact Iff.rfl

/-- **Every failure is captured or counted, and told once.** Take any run, with any interleaving, of
an engine whose backend runs no task inside the producer's call, up to a point at which all tasks
have ended and no refusal is on its way, and before its finish is called. Workers that failed,
workers that were lost and refused items together are the captured failure and those that were
dropped after it. The log has one line for each such worker: that of the captured failure if it is a
worker's, and otherwise a line that it came too late. Nobody is told of otherwise than it has ended,
and a refused item not at all; and the backend has seen just the workers fail that failed. -/
theorem failures_counted_once (hunpolled : ∀ n, (setup.backend.receive n).polled = false)
    (hrun : (Machine.new setup scope).run moves = some m)
    (hended : ∀ w ∈ m.workers, ∃ e, w.phase = .ended e) (hsettled : m.producer.pending? = none)
    (hopen : Move.call .finish ∉ moves) :
    m.failedWorkers + m.lostWorkers + m.refusedItems =
        m.failure.isSome.toNat + m.droppedFailures ∧
      m.log.countP (·.event.isFirst) + m.log.countP (·.event.isLate) =
        m.failedWorkers + m.lostWorkers ∧
      (∀ f, m.failure = some f → m.BlamesWorker f →
        m.firstRecords = [m.firstRecord f.item f]) ∧
      ((∀ f, m.failure = some f → ¬ m.BlamesWorker f) → m.firstRecords = []) ∧
      (∀ n w e, m.workers[n]? = some w → w.phase = .ended e → m.reportsOf n = e.reports n) ∧
      (∀ n, m.verdict n = .refuse → m.reportsOf n = []) ∧
      m.tally.tasksFailed = m.failedWorkers ∧
      m.log.countP (·.event.isTaskFailed) =
        (if setup.backend.reportsAs.isSome then m.failedWorkers else 0) ∧
      m.tally.submitted = m.dispatchedCount := by
  have h := reckoned hunpolled hrun
  have hnumbered := (drains hrun).orderly.numbered
  have hsubmitted := ((Counted.new setup scope).run hrun).submitted
  have hfirst := h.told.first
  have hfailed := countP_isFailedTask hended
  obtain ⟨houtcomes, hrecords⟩ := h.sums hrun hended hsettled
  obtain ⟨hfailure, hdropped, hdispatched⟩ := h.tells_cell hrun hended hsettled hopen
  refine ⟨?_, hrecords, ?_, ?_, ?_, ?_, ?_, ?_, ?_⟩
  · rw [hfailure, hdropped]
    exact houtcomes
  · intro f hf hblames
    rw [hfirst, dueRecords, ← hfailure, hf, Option.elim_some, h.untouched.run_of_blames hblames]
    exact if_neg (by decide)
  · intro hnone
    rw [hfirst, dueRecords, ← hfailure]
    cases hf : m.failure with
    | none => rfl
    | some f =>
      have hrefused := (h.attributed f (hfailure ▸ hf)).resolve_right (hnone f hf)
      rw [Option.elim_some, if_pos hrefused]
  · intro n w e hw he
    rw [h.told.reports n, hw, Option.elim_some, he]
    rfl
  · exact fun n hrefused => h.silent_of_refused hended hrefused
  · rw [h.told.tasks, hfailed]
  · rw [h.told.ends, h.told.tasks, hfailed, setup_run hrun]
  · rw [hdispatched, hsubmitted, hnumbered]

end

theorem ended_of_steps {intake : Intake α} {w : Worker α} (h : w.steps intake = 0) :
    ∃ e, w.phase = .ended e := by
  cases hp : w.phase with
  | ended e => exact ⟨e, rfl⟩
  | _ =>
    rw [Worker.steps, hp] at h
    exact absurd h (by simp)

/-- Two tasks that are run, and a third that is refused. -/
def mixedSetup : Setup Nat where
  processor := { name := "mixed" }
  backend := { Backend.async with receive := fun n => if n = 2 then { verdict := .refuse } else {} }

def boom : Failure := ⟨0, 1, .user "boom" []⟩

/-- The first worker fails, and is captured; the refusal and then a panic come too late. -/
def mixedMoves : List (Move Nat) :=
  let submit (script : Script Nat) : List (Move Nat) :=
    .call (.submit { value := 7, script }) :: List.replicate 3 .producer
  [.call .start, .producer] ++ submit [.fail (.user "boom" [])] ++ submit [.panic] ++
    submit [.emit (.output (.given 7))] ++ [.producer, .worker 2, .producer] ++
    List.replicate 5 (.worker 0) ++ List.replicate 2 .producer ++ List.replicate 6 (.worker 1)

theorem failures_counted_once_mixed :
    ∃ m, (Machine.new mixedSetup).run mixedMoves = some m ∧
      m.failedWorkers + m.lostWorkers + m.refusedItems = 3 ∧
      m.log.countP (·.event.isFirst) + m.log.countP (·.event.isLate) = 2 ∧
      m.firstRecords.length = 1 ∧ m.reportsOf 2 = [] := by
  have hrun : ((Machine.new mixedSetup).run mixedMoves).map (fun m =>
      (m.workers.all (·.steps default == 0) && m.producer.pending?.isNone,
        m.workers[0]?.map (·.phase.fate?), m.failedWorkers + m.lostWorkers, m.failure,
        m.droppedFailures)) = some (true, some (some (.failed boom)), 2, some boom, 2) := by
    decide +kernel
  obtain ⟨m, hrun, hm⟩ := Option.map_eq_some_iff.mp hrun
  simp only [Prod.mk.injEq, Bool.and_eq_true, Option.isNone_iff_eq_none] at hm
  obtain ⟨⟨hsteps, hsettled⟩, hfirst, hblamed, hfailure, hdropped⟩ := hm
  have hrefused : m.verdict 2 = .refuse := by
    rw [verdict, setup_run hrun]
    rfl
  have hunpolled : ∀ n, (mixedSetup.backend.receive n).polled = false := by
    intro n
    simp only [mixedSetup]
    split <;> rfl
  have hended : ∀ w ∈ m.workers, ∃ e, w.phase = .ended e := fun w hw =>
    ended_of_steps (beq_iff_eq.mp (List.all_eq_true.mp hsteps w hw))
  have hopen : Move.call .finish ∉ mixedMoves := by
    simp [mixedMoves]
  obtain ⟨w, hw, hfate⟩ := Option.map_eq_some_iff.mp hfirst
  obtain ⟨hsum, hlines, hone, -, -, hnothing, -⟩ :=
    failures_counted_once hunpolled hrun hended hsettled hopen
  rw [hfailure, hdropped] at hsum
  rw [hblamed] at hlines
  have hline := hone boom hfailure ⟨w, _, hw, hfate, rfl, rfl⟩
  exact ⟨m, hrun, hsum, hlines, by rw [hline]; rfl, hnothing 2 hrefused⟩

end Machine

end WorkBundle
