import WorkBundle.Proofs.Drain
import WorkBundle.Proofs.Lock
import WorkBundle.Proofs.Taking

/-!
# One emission at a time

Two emissions are never in progress at once (`Machine.eq_of_takes`), for two reasons. A worker whose
emission the sink is taking in holds the output lock, and that is held by one. A hook takes no lock;
but the start hook runs in a bundle that has not been started, so that there is no worker, and the
finish hook runs after the drain, so that no worker is in flight. Hence what an observer has counted
never exceeds one (`Machine.Watched`).
-/

set_option autoImplicit false

namespace WorkBundle

variable {α : Type}

theorem eq_of_countP_le_one {β : Type} {p : β → Bool} {l : List β} {i j : Nat} {x y : β}
    (h : l.countP p ≤ 1) (hi : l[i]? = some x) (hj : l[j]? = some y) (hx : p x = true)
    (hy : p y = true) : i = j := by
  induction l generalizing i j with
  | nil => cases hi
  | cons a l ih =>
    have hpos {k : Nat} {z : β} (hk : l[k]? = some z) (hz : p z = true) : 0 < l.countP p :=
      List.countP_pos_iff.mpr ⟨z, List.mem_of_getElem? hk, hz⟩
    rw [List.countP_cons] at h
    cases i with
    | zero =>
      cases j with
      | zero => rfl
      | succ j =>
        obtain rfl : a = x := Option.some.inj hi
        have := hpos hj hy
        rw [if_pos hx] at h
        omega
    | succ i =>
      cases j with
      | zero =>
        obtain rfl : a = y := Option.some.inj hj
        have := hpos hi hx
        rw [if_pos hy] at h
        omega
      | succ j => rw [ih (by omega) hi hj]

namespace Machine

variable {m m' : Machine α} {move : Move α} {moves : List (Move α)} {current : Option (Call α)}
  {k k' : Emitter} {n : Nat}

/-! ## Who emits -/

theorem exists_worker_of_takes (h : m.Takes (.worker n)) :
    ∃ w a, m.workers[n]? = some w ∧ w.phase = .working a ∧ a.lockUse = .holds := by
  rw [Takes, takingBy] at h
  cases hw : m.workers[n]? with
  | none =>
    rw [hw] at h
    cases h
  | some w =>
    rw [hw] at h
    obtain ⟨item, phase⟩ := w
    cases phase with
    | working a =>
      refine ⟨_, a, rfl, rfl, ?_⟩
      change a.taking.isSome = true at h
      unfold Activity.taking at h
      unfold Activity.lockUse
      split at h
      · rename_i ha
        rw [ha]
      · cases h
    | _ => cases h

theorem exists_hook_of_takes {hook : Hook} (h : m.Takes (.hook hook)) :
    ∃ a, m.producer.hook? = some (hook, a) := by
  rw [Takes, takingBy, Phase.takingBy] at h
  split at h
  · rename_i current a hp
    split at h
    · rename_i heq
      exact ⟨a, heq ▸ hp⟩
    · cases h
  · cases h

/-- What keeps emissions apart: the calls come in order (`Orderly`), workers in flight hold tickets
(`TicketsOk`), and the lock is held by one (`LockOk`). -/
structure Apart (m : Machine α) (current : Option (Call α)) : Prop where
  orderly : m.Orderly current
  tickets : m.TicketsOk
  lock : m.LockOk
  created : m.stage = .created → m.workers = []

theorem apart {setup : Setup α} {scope : Scope}
    (hrun : (Machine.new setup scope).run moves = some m) : m.Apart (lastCall none moves) := by
  refine run_induction (Q := fun moves m => m.Apart (lastCall none moves))
    ⟨.new setup scope, .new setup scope, .new setup scope, fun _ => rfl⟩ ?_ hrun
  intro moves m m' move _ h hstep
  have ht := transition_of_step hstep
  refine ⟨?_, h.tickets.step ht, h.lock.step ht, h.orderly.empty_step ht h.created⟩
  rw [lastCall_concat]
  exact h.orderly.step ht

namespace Apart

/-- While a hook runs, no worker emits (`Takes`). The start hook runs before there are workers, and
the finish hook after a drain that has left none in flight. -/
theorem not_takes_of_hook (h : m.Apart current) {hook : Hook} {a : Activity α}
    (hp : m.producer.hook? = some (hook, a)) : ¬ m.Takes (.worker n) := by
  intro htakes
  obtain ⟨w, b, hw, hphase, -⟩ := exists_worker_of_takes htakes
  rcases Phase.of_hook? hp with ⟨-, hp⟩ | ⟨-, hp⟩
  · have hnone := h.created (h.orderly.stage _ (by rw [hp]; rfl))
    rw [hnone] at hw
    cases hw
  · have hempty := h.tickets.inFlight_zero (Or.inr (by rw [hp]; rfl))
    exact inFlight_ne_zero hw (by rw [hphase]; rfl) hempty

theorem writers_le_one (h : m.Apart current) : m.writers ≤ 1 := by
  have hbalance := h.lock.balanced.balance
  simp only [lockGate, Parallelism.count_single] at hbalance
  omega

/-- The emitter whose emission is in progress is the only one. Between two workers that is the lock,
and between a worker and a hook the order of the calls. -/
theorem eq_of_takes (h : m.Apart current) (hk : m.Takes k) (hk' : m.Takes k') : k = k' := by
  cases k with
  | hook hook =>
    obtain ⟨a, hp⟩ := exists_hook_of_takes hk
    cases k' with
    | hook other =>
      obtain ⟨b, hp'⟩ := exists_hook_of_takes hk'
      rw [hp] at hp'
      cases hp'
      rfl
    | worker n => exact absurd hk' (h.not_takes_of_hook hp)
  | worker n =>
    cases k' with
    | hook other =>
      obtain ⟨b, hp'⟩ := exists_hook_of_takes hk'
      exact absurd hk (h.not_takes_of_hook hp')
    | worker i =>
      -- Both hold the output lock, and one at most does.
      obtain ⟨w, a, hw, hphase, huse⟩ := exists_worker_of_takes hk
      obtain ⟨v, b, hv, hphase', huse'⟩ := exists_worker_of_takes hk'
      have hholds {u : Worker α} {c : Activity α} (hc : u.phase = .working c)
          (hholds : c.lockUse = .holds) : (u.phase.lockUse == .holds) = true := by
        rw [hc, WorkerPhase.lockUse, hholds]
        rfl
      rw [eq_of_countP_le_one h.writers_le_one hw hv (hholds hphase huse) (hholds hphase' huse')]

end Apart

/-! ## What a step means for the others -/

theorem takes_update {x : Option (List (Delivery α))}
    (h : m'.takingBy = Function.update m.takingBy k x) :
    m'.Takes k' ↔ if k' = k then x.isSome = true else m.Takes k' := by
  rw [Takes, Takes, h, Function.update_apply]
  split <;> rfl

theorem Apart.none_after (h : m.Apart current) (hk : m.Takes k)
    (htaking : m'.takingBy = Function.update m.takingBy k none) : ¬ m'.Takes k' := by
  rw [takes_update htaking]
  intro hk'
  split at hk'
  · cases hk'
  · rename_i hne
    exact hne (h.eq_of_takes hk' hk)

theorem Apart.none_before (h : m'.Apart current) {steps : List (Delivery α)}
    (idle : m.takingBy k = none)
    (htaking : m'.takingBy = Function.update m.takingBy k (some steps)) : ¬ m.Takes k' := by
  intro hk'
  have hne : k' ≠ k := by
    rintro rfl
    rw [Takes, idle] at hk'
    cases hk'
  have hself : m'.Takes k := (takes_update htaking).mpr (by rw [if_pos rfl]; rfl)
  have hother : m'.Takes k' := (takes_update htaking).mpr (by rwa [if_neg hne])
  exact hne (h.eq_of_takes hother hself)

/-- What an observer has counted of the emissions (`Tally.emissions`) is what is in progress: one,
or none. The count goes up and down in steps of its own, so this takes an induction along the run.
-/
structure Watched (m : Machine α) : Prop where
  calm : (∀ k, ¬ m.Takes k) → m.tally.emissions.active = 0
  busy : ∀ k, m.Takes k → m.tally.emissions.active = 1
  le_one : m.tally.emissions.maxActive ≤ 1

theorem Watched.new (setup : Setup α) (scope : Scope) : (Machine.new setup scope).Watched where
  calm := fun _ => rfl
  busy := fun k hk => by cases k <;> cases hk
  le_one := Nat.zero_le 1

theorem takes_of_some {steps : List (Delivery α)} (h : m.takingBy k = some steps) : m.Takes k := by
  rw [Takes, h]
  rfl

theorem Watched.step {current' : Option (Call α)} (h : m.Watched) (hapart : m.Apart current)
    (hapart' : m'.Apart current') (hs : EmissionStep m m' move) : m'.Watched := by
  -- The same emitters are in the middle of an emission as before.
  have hsame (htakes : ∀ k, m'.Takes k ↔ m.Takes k)
      (emissions : m'.tally.emissions = m.tally.emissions) : m'.Watched := by
    refine ⟨fun hno => ?_, fun k hk => ?_, ?_⟩
    all_goals rw [emissions]
    · exact h.calm fun k hk => hno k ((htakes k).mpr hk)
    · exact h.busy k ((htakes k).mp hk)
    · exact h.le_one
  have hover {k : Emitter} {steps : List (Delivery α)} (was : m.takingBy k = some steps)
      (taking : m'.takingBy = Function.update m.takingBy k none)
      (emissions : m'.tally.emissions = m.tally.emissions.complete ∨
        m'.tally.emissions = m.tally.emissions.lose) : m'.Watched := by
    have hk := takes_of_some was
    have hactive := h.busy k hk
    have hnone (k' : Emitter) : ¬ m'.Takes k' := hapart.none_after hk taking
    rcases emissions with emissions | emissions
    all_goals
      refine ⟨fun _ => ?_, fun k' hk' => absurd hk' (hnone k'), ?_⟩
      all_goals rw [emissions]
    · rw [Activeness.complete, hactive]
    · exact h.le_one
    · rw [Activeness.lose, hactive]
    · exact h.le_one
  cases hs with
  | still _ taking _ emissions => exact hsame (fun k => by rw [Takes, Takes, taking]) emissions
  | @begins k e _ idle taking _ emissions =>
    -- Who begins is the only one afterwards, so there was none before.
    have hactive := h.calm fun k' => hapart'.none_before idle taking
    have hk : m'.Takes k := (takes_update taking).mpr (by rw [if_pos rfl]; rfl)
    refine ⟨fun hno => absurd hk (hno k), fun _ _ => ?_, ?_⟩
    all_goals rw [emissions, Activeness.enter, hactive]
    exact Nat.max_le.mpr ⟨h.le_one, Nat.le_refl 1⟩
  | @delivers k d steps _ was taking _ emissions =>
    refine hsame (fun k' => ?_) emissions
    rw [takes_update taking]
    split
    · rename_i heq
      exact ⟨fun _ => heq ▸ takes_of_some was, fun _ => rfl⟩
    · rfl
  | ends _ was taking _ emissions => exact hover was taking (Or.inl emissions)
  | breaksOff _ was taking _ emissions => exact hover was taking (Or.inr emissions)

theorem watched {setup : Setup α} {scope : Scope}
    (hrun : (Machine.new setup scope).run moves = some m) : m.Watched := by
  refine run_induction (Q := fun _ m => m.Watched) (.new setup scope) ?_ hrun
  intro moves m m' move hrun h hstep
  have hrun' := run_trans hrun ((run_singleton m move).trans hstep)
  exact h.step (apart hrun) (apart hrun') (emissionStep (transition_of_step hstep))

end Machine

end WorkBundle
