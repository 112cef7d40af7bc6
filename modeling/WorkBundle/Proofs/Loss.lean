import WorkBundle.Proofs.Barrier

/-!
# No item is lost, but for one that never began

Every submission that was accepted has a worker, and every worker that gives its ticket back has
succeeded or leaves a failure in the cell before — unless its task was dropped before it had
begun. Then nothing of it is left to tell, and a bundle can be declared a success with an element
that nobody handled.

`Ledger` compares the two sides: the items whose submission was answered with success, and the
items that have workers. They differ only by the item that the backend has not yet spoken about,
and by the ones it has refused; after a refusal the cell is never empty again.
-/

set_option autoImplicit false

namespace WorkBundle

variable {α : Type}

namespace Machine

/-! ## Accepted items -/

def acceptedItem? : Call α × Reply → Option (WorkItem α)
  | (.submit item, .answer (.ok ())) => some item
  | _ => none

/-- The items whose submission was answered with success, oldest first. It is read off `exchanges`,
that is, off what the caller knows. -/
def accepted (exchanges : List (Call α × Reply)) : List (WorkItem α) :=
  exchanges.filterMap acceptedItem?

theorem accepted_append (ex ex' : List (Call α × Reply)) :
    accepted (ex ++ ex') = accepted ex ++ accepted ex' :=
  List.filterMap_append

/-- The item that was handed over and that the backend has not yet spoken about. It has a worker,
but its caller has no answer, so `Ledger` keeps it apart. -/
def undecided (m : Machine α) : List (WorkItem α) :=
  match m.producer.handed? with
  | some n => m.items.drop n
  | none => []

/-- Accepted items have workers, and but for the `undecided` one no others do until the bundle
fails. A refusal that fails it leaves a worker behind whose item was not accepted. -/
structure Ledger (m : Machine α) (ex : List (Call α × Reply)) : Prop where
  sublist : (accepted ex ++ m.undecided).Sublist m.items
  whole : m.cell.captured = none → accepted ex ++ m.undecided = m.items

namespace Ledger

variable {m m' : Machine α} {ex ex' : List (Call α × Reply)} {move : Move α}

theorem same (h : m.Ledger ex) (ht : Transition m move m')
    (hacc : accepted ex' ++ m'.undecided = accepted ex ++ m.undecided)
    (hitems : m'.items = m.items) : m'.Ledger ex' := by
  refine ⟨?_, fun hcell => ?_⟩
  · rw [hacc, hitems]
    exact h.sublist
  · rw [hacc, hitems]
    exact h.whole (captured_none_of_step ht hcell)

theorem add (h : m.Ledger ex) (ht : Transition m move m') {item : WorkItem α}
    (hacc : accepted ex' ++ m'.undecided = accepted ex ++ m.undecided ++ [item])
    (hitems : m'.items = m.items ++ [item]) : m'.Ledger ex' := by
  refine ⟨?_, fun hcell => ?_⟩
  · rw [hacc, hitems]
    exact h.sublist.append (List.Sublist.refl _)
  · rw [hacc, hitems, h.whole (captured_none_of_step ht hcell)]

theorem refuse (h : m.Ledger ex) (idle : m'.producer = .idle) (hitems : m'.items = m.items)
    (hfull : m'.cell.captured.isSome) {answers : List (Call α × Reply)}
    (hanswers : accepted answers = []) : m'.Ledger (ex ++ answers) := by
  refine ⟨?_, fun hcell => ?_⟩
  · have hundecided : m'.undecided = [] := by
      rw [undecided, idle]
      rfl
    rw [accepted_append, hanswers, hundecided, hitems, List.append_nil, List.append_nil]
    exact (List.sublist_append_left _ _).trans h.sublist
  · rw [hcell] at hfull
    cases hfull

theorem goOn (h : m.Ledger ex) (ht : Transition m move m') {current : Option (Call α)}
    (hord : m.Orderly current) (hands : m.Hands m') : m'.Ledger ex := by
  rcases hands with ⟨hhanded, hitems⟩ | ⟨item, hp, hhanded, hitems⟩
  · refine h.same ht ?_ hitems
    rw [undecided, undecided, hhanded, hitems]
  · refine h.add ht ?_ hitems
    have hbefore : m.undecided = [] := by
      rw [undecided, hp]
      rfl
    have hlength : m.items.length = m.dispatched := by
      rw [items, List.length_map, hord.numbered]
    have hafter : m'.undecided = [item] := by
      rw [undecided, hhanded, hitems, ← hlength]
      simp
    rw [hbefore, hafter, List.append_nil]

theorem other (h : m.Ledger ex) (ht : Transition m move m') (idle : m'.producer = .idle)
    (hhanded : m.producer.handed? = none) (hitems : m'.items = m.items)
    {answers : List (Call α × Reply)} (hanswers : accepted answers = []) :
    m'.Ledger (ex ++ answers) := by
  refine h.same ht ?_ hitems
  rw [accepted_append, hanswers, undecided, undecided, hhanded, idle]
  simp [Phase.handed?]

theorem accepted_of_error (current : Option (Call α)) {reply : Reply}
    (hreply : reply ≠ .answer (.ok ())) : accepted (current.map (·, reply)).toList = [] := by
  cases current with
  | none => rfl
  | some c =>
    cases c with
    | start | finish => rfl
    | submit item =>
      cases reply with
      | panic => rfl
      | answer a =>
        cases a with
        | ok => exact absurd rfl hreply
        | error => rfl

theorem undecided_eq {current : Option (Call α)} (hord : m.Orderly current) {n : Nat}
    (hhanded : m.producer.handed? = some n) :
    ∃ item, m.undecided = [item] ∧ current = some (.submit item) := by
  have hserves := hord.serves
  have hlast : ∃ earlier item, m.items = earlier ++ [item] ∧ earlier.length = n ∧
      current = some (.submit item) := by
    cases hp : m.producer <;> rw [hp] at hhanded hserves <;> cases hhanded <;> exact hserves
  obtain ⟨earlier, item, hitems, rfl, hcurrent⟩ := hlast
  refine ⟨item, ?_, hcurrent⟩
  rw [undecided, hhanded, hitems]
  simp

theorem step (h : m.Ledger ex) (ht : Transition m move m') {current : Option (Call α)}
    (hord : m.Orderly current) (hj : m.Judged m.producer) :
    m'.Ledger (ex ++ m.answered m' (move.call?.or current)) := by
  cases callStep ht with
  | goesOn replies _ hands =>
    rw [answered_of_replies_eq replies, List.append_nil]
    exact h.goOn ht hord hands
  | @ends reply replies idle _ how =>
    rw [answered_of_reply replies]
    -- A call in progress is the one that ends.
    have hbusy (busy : m.producer ≠ .idle) : move.call?.or current = current := by
      rw [call?_eq_none ht busy]
      rfl
    have hserves := hord.serves
    have hidle : m'.undecided = [] := by
      rw [undecided, idle]
      rfl
    cases how with
    | violation phase =>
      exact h.other ht idle (by rw [phase]; rfl) (items_step ht (by rw [phase]; nofun))
        (accepted_of_error _ nofun)
    | startHook phase | finishHook phase =>
      rw [phase] at hserves
      rw [hbusy (by rw [phase]; nofun), hserves]
      exact h.other ht idle (by rw [phase]; rfl) (items_step ht (by rw [phase]; nofun)) rfl
    | cancelled _ phase =>
      have hphase : m.producer.handed? = none ∧ ∀ item, m.producer ≠ .handing item := by
        rcases phase with ⟨item, hp⟩ | hp
        all_goals rw [hp]; exact ⟨rfl, nofun⟩
      exact h.other ht idle hphase.1 (items_step ht hphase.2) (accepted_of_error _ nofun)
    | tooLate phase | failed phase =>
      exact h.other ht idle (by rw [phase]; rfl) (items_step ht (by rw [phase]; nofun))
        (accepted_of_error _ nofun)
    | @left item phase hitems _ =>
      rw [phase] at hserves
      rw [hbusy (by rw [phase]; nofun), hserves]
      have hbefore : m.undecided = [] := by
        rw [undecided, phase]
        rfl
      refine h.add ht ?_ hitems
      rw [accepted_append, hidle, hbefore, List.append_nil, List.append_nil]
      rfl
    | @taken n phase =>
      have hphase : m.producer.handed? = some n ∧ m.producer ≠ .idle ∧
          ∀ item, m.producer ≠ .handing item := by
        rcases phase with hp | hp
        all_goals rw [hp]; exact ⟨rfl, nofun, nofun⟩
      obtain ⟨item, hundecided, hcurrent⟩ := undecided_eq hord hphase.1
      rw [hbusy hphase.2.1, hcurrent]
      refine h.same ht ?_ (items_step ht hphase.2.2)
      rw [accepted_append, hidle, hundecided, List.append_nil]
      rfl
    -- From here on the bundle has failed, so fewer may be accepted than have workers.
    | refused phase _ full =>
      exact h.refuse idle (items_step ht (by rw [phase]; nofun)) (by rw [full]; rfl)
        (accepted_of_error _ nofun)
    | outdone phase =>
      rw [phase] at hj
      exact h.refuse idle (items_step ht (by rw [phase]; nofun)) (isSome_captured_step ht hj.2)
        (accepted_of_error _ nofun)

end Ledger

theorem ledger_run {setup : Setup α} {scope : Scope} {moves : List (Move α)} {m : Machine α}
    (hrun : (Machine.new setup scope).run moves = some m) :
    m.Ledger ((Machine.new setup scope).exchanges moves) := by
  refine run_induction (Q := fun moves m =>
    m.Ledger ((Machine.new setup scope).exchanges moves)) ?_ ?_ hrun
  · exact ⟨List.Sublist.refl _, fun _ => rfl⟩
  · intro moves m m' move hrun h hstep
    rw [exchanges_concat hrun hstep, lastCall_concat]
    exact h.step (transition_of_step hstep) (drains hrun).orderly (judged_run hrun)

/-! ## The loss of an item -/

/-- Every worker whose ticket is back, or is about to go back (`ending?`), has succeeded or left a
failure in the cell. -/
def NothingLost (m : Machine α) : Prop :=
  ∀ (n : Nat) (w : Worker α) (e : Ending), m.workers[n]? = some w → w.phase.ending? = some e →
    e = .returned ∨ m.cell.captured.isSome

section

variable {setup : Setup α} {scope : Scope} {moves : List (Move α)} {m : Machine α}
  (hrun : (Machine.new setup scope).run moves = some m)

include hrun

theorem unstarted_ending_iff {n : Nat} {w : Worker α} {e : Ending} (hw : m.workers[n]? = some w)
    (he : w.phase.ending? = some e) :
    e = .unstarted ↔ (Machine.new setup scope).Unbegun moves n := by
  rw [← unstarted_iff hrun n]
  constructor
  · rintro rfl
    exact ⟨w, hw, he⟩
  · rintro ⟨w', hw', he'⟩
    obtain rfl : w = w' := Option.some.inj (hw.symm.trans hw')
    exact Option.some.inj (he.symm.trans he')

theorem nothingLost_iff :
    m.NothingLost ↔
      ∀ n, (Machine.new setup scope).Unbegun moves n → m.cell.captured.isSome := by
  constructor
  · intro hnothing n hn
    obtain ⟨w, hw, he⟩ := (unstarted_iff hrun n).mpr hn
    rcases hnothing n w .unstarted hw he with h | h
    · cases h
    · exact h
  · intro hfull n w e hw he
    by_cases hu : e = .unstarted
    · exact Or.inr (hfull n ((unstarted_ending_iff hrun hw he).mp hu))
    · exact captured_of_recorded (recorded_of_ending (accounted_run hrun) hw he) hu

theorem succeeded_or_unstarted (hq : m.Quiet) (hempty : m.cell.captured = none) {n : Nat}
    {w : Worker α} (hw : m.workers[n]? = some w) :
    w.phase.ending? = some .returned ∨ w.phase.ending? = some .unstarted := by
  obtain ⟨e, he, -⟩ := ending_of_inFlight_zero hq.empty hw
  by_cases hu : e = .unstarted
  · subst hu
    exact Or.inr he
  · rcases captured_of_recorded (recorded_of_ending (accounted_run hrun) hw he) hu with rfl | h
    · exact Or.inl he
    · rw [hempty] at h
      cases h

end

/-- An item is lost only if its task was dropped before it had begun, and just then. A worker
whose ticket is back, or is about to go back, has succeeded, or a failure is in the cell, or its
task was dropped before it had begun; so the bundle has lost an item exactly when that has
happened while the cell was empty. When a finish is answered with success, the workers are those
of the accepted submissions, in their order, each of them has succeeded or was dropped before it
had begun, and all have succeeded exactly when none was. -/
theorem lost_iff_unbegun {setup : Setup α} {scope : Scope} {moves : List (Move α)} {m : Machine α}
    (hrun : (Machine.new setup scope).run moves = some m) :
    (accepted ((Machine.new setup scope).exchanges moves)).Sublist m.items ∧
    (∀ n w e, m.workers[n]? = some w → w.phase.ending? = some e →
      (e = .unstarted ↔ (Machine.new setup scope).Unbegun moves n) ∧
      (e = .returned ∨ e = .unstarted ∨ ∃ f, e.Tells n f ∧ m.Noted n f)) ∧
    (m.NothingLost ↔
      ∀ n, (Machine.new setup scope).Unbegun moves n → m.cell.captured.isSome) ∧
    ((Call.finish, Reply.answer (.ok ())) ∈ (Machine.new setup scope).exchanges moves →
      m.items = accepted ((Machine.new setup scope).exchanges moves) ∧
      (∀ (n : Nat) (w : Worker α), m.workers[n]? = some w →
        w.phase.ending? = some .returned ∨ w.phase.ending? = some .unstarted) ∧
      ((∀ (n : Nat) (w : Worker α), m.workers[n]? = some w → w.phase.ending? = some .returned) ↔
        ∀ n, ¬ (Machine.new setup scope).Unbegun moves n)) := by
  have hledger := ledger_run hrun
  refine ⟨?_, ?_, nothingLost_iff hrun, ?_⟩
  · exact (List.sublist_append_left _ _).trans hledger.sublist
  · intro n w e hw he
    exact ⟨unstarted_ending_iff hrun hw he, recorded_of_ending (accounted_run hrun) hw he⟩
  · intro hfinish
    -- The finish has drained: nothing is under way, and it has told that the cell is empty.
    have hover := (drains hrun).ended _ hfinish rfl
    have hempty : m.cell.captured = none := hover.failure.symm
    have hundecided : m.undecided = [] := by
      rw [undecided, hover.quiet.idle]
      rfl
    have hended {n : Nat} {w : Worker α} (hw : m.workers[n]? = some w) :
        w.phase.ending? = some .returned ∨ w.phase.ending? = some .unstarted :=
      succeeded_or_unstarted hrun hover.quiet hempty hw
    refine ⟨?_, fun n w hw => hended hw, ?_⟩
    · have hwhole := hledger.whole hempty
      rw [hundecided, List.append_nil] at hwhole
      exact hwhole.symm
    · constructor
      · intro hall n hn
        obtain ⟨w, hw, he⟩ := (unstarted_iff hrun n).mpr hn
        rw [hall n w hw] at he
        cases he
      · intro hnone n w hw
        rcases hended hw with he | he
        · exact he
        · exact absurd ((unstarted_ending_iff hrun hw he).mp rfl) (hnone n)

/-- A submission is accepted, its task is dropped before it has begun, and the finish succeeds. -/
def lostMoves : List (Move Nat) :=
  [.call .start, .producer,
    .call (.submit { value := 7, script := [.emit (.output (.given 7))] }),
    .producer, .producer, .producer, .drop 0, .worker 0,
    .call .finish, .producer, .producer, .producer]

theorem lost_iff_unbegun_solo :
    ∃ m, (Machine.new soloSetup).run lostMoves = some m ∧
      (Machine.new soloSetup).Unbegun lostMoves 0 ∧ m.cell.captured = none := by
  have hrun : ((Machine.new soloSetup).run lostMoves).map
      (fun m => (m.workers[0]?.map (·.phase.ending?), m.cell.captured)) =
        some (some (some .unstarted), none) := by decide +kernel
  obtain ⟨m, hrun, hm⟩ := Option.map_eq_some_iff.mp hrun
  obtain ⟨hworker, hcell⟩ := Prod.mk.inj hm
  obtain ⟨w, hw, hend⟩ := Option.map_eq_some_iff.mp hworker
  obtain ⟨-, hends, -⟩ := lost_iff_unbegun hrun
  exact ⟨m, hrun, (hends 0 w .unstarted hw hend).1.mp rfl, hcell⟩

/-- A bundle can succeed, with every submission accepted, and have lost an item. -/
theorem success_with_lost_item :
    ∃ m, (Machine.new soloSetup).run lostMoves = some m ∧
      m.replies = [.answer (.ok ()), .answer (.ok ()), .answer (.ok ())] ∧ ¬ m.NothingLost := by
  have hrun : ((Machine.new soloSetup).run lostMoves).map
      (fun m => (m.replies, m.workers[0]?.map (·.phase.ending?), m.cell.captured)) =
        some ([.answer (.ok ()), .answer (.ok ()), .answer (.ok ())],
          some (some .unstarted), none) := by decide +kernel
  obtain ⟨m, hrun, hm⟩ := Option.map_eq_some_iff.mp hrun
  obtain ⟨hreplies, hm⟩ := Prod.mk.inj hm
  obtain ⟨hworker, hcell⟩ := Prod.mk.inj hm
  obtain ⟨w, hw, hend⟩ := Option.map_eq_some_iff.mp hworker
  refine ⟨m, hrun, hreplies, fun hnothing => ?_⟩
  rcases hnothing 0 w .unstarted hw hend with h | h
  · cases h
  · rw [hcell] at h
    cases h

end Machine

end WorkBundle
