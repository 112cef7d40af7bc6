import WorkBundle.Machine.Step

/-!
# The list of workers

A worker keeps its number and its item; only its phase changes. So a worker that is found after a
phase was set, or after an item was handed over, is one of those before or the one the change is
about.

`inFlight` counts the workers that hold a ticket. A worker gives its ticket back as the last thing
it does, after its outcome was recorded, so without one it has ended
(`WorkerPhase.ending?_of_not_holdsTicket`).
-/

set_option autoImplicit false

namespace WorkBundle

variable {α : Type}

/-! ## Phases -/

namespace WorkerPhase

/-- A task holds its ticket from the hand-over to the last step of its guard, so the ticket outlives
the outcome it guards: a phase of `ending?` may still hold one, and only `closing` and `ended` do
not. -/
def holdsTicket : WorkerPhase α → Bool
  | .closing _ | .ended _ => false
  | _ => true

def ending? : WorkerPhase α → Option Ending
  | .leaving e | .closing e | .ended e => some e
  | _ => none

/-- How a worker ends whose code is over. It goes further back than `ending?`: a worker that is
`offering` its failure or `counting` a loss has its fate, although nobody else can see it yet. -/
def fate? : WorkerPhase α → Option Ending
  | .offering _ e | .counting _ e | .leaving e | .closing e | .ended e => some e
  | .queued | .working _ => none

theorem fate?_of_ending? {p : WorkerPhase α} {e : Ending} (h : p.ending? = some e) :
    p.fate? = some e := by
  cases p <;> first | exact h | cases h

theorem ending?_of_not_holdsTicket {p : WorkerPhase α} (h : p.holdsTicket = false) :
    ∃ e, p = .closing e ∨ p = .ended e := by
  cases p with
  | closing e => exact ⟨e, Or.inl rfl⟩
  | ended e => exact ⟨e, Or.inr rfl⟩
  | _ => cases h

end WorkerPhase

/-! ## Lists in which one entry changes or is added -/

theorem countP_modify {β : Type} {p : β → Bool} {f : β → β} {l : List β} {n : Nat} {b : β}
    (h : l[n]? = some b) :
    (l.modify n f).countP p + (p b).toNat = l.countP p + (p (f b)).toNat := by
  induction l generalizing n with
  | nil => exact absurd h (by simp)
  | cons a l ih =>
    cases n with
    | zero =>
      obtain rfl : a = b := by simpa using h
      rw [List.modify_zero_cons, List.countP_cons, List.countP_cons]
      cases p a <;> cases p (f a) <;> simp
    | succ n =>
      rw [List.modify_succ_cons, List.countP_cons, List.countP_cons]
      have := ih (by simpa using h)
      omega

theorem flatMap_modify_perm {β γ : Type} {f : β → List γ} {g : β → β} {l : List β} {n : Nat} {b : β}
    {us : List γ} (h : l[n]? = some b) (hf : f b = us ++ f (g b)) :
    (l.flatMap f).Perm (us ++ (l.modify n g).flatMap f) := by
  induction l generalizing n with
  | nil => exact absurd h (by simp)
  | cons a l ih =>
    cases n with
    | zero =>
      obtain rfl : a = b := by simpa using h
      rw [List.modify_zero_cons, List.flatMap_cons, List.flatMap_cons, hf, List.append_assoc]
    | succ n =>
      rw [List.modify_succ_cons, List.flatMap_cons, List.flatMap_cons]
      exact ((ih (by simpa using h)).append_left (f a)).trans (List.perm_append_comm_assoc _ _ _)

theorem getElem?_concat_cases {β : Type} {l : List β} {new b : β} {k : Nat}
    (h : (l ++ [new])[k]? = some b) : k = l.length ∧ b = new ∨ l[k]? = some b := by
  rcases Nat.lt_or_ge k l.length with hk | hk
  · rw [List.getElem?_append_left hk] at h
    exact Or.inr h
  · rw [List.getElem?_append_right hk] at h
    have hzero : k - l.length = 0 := by
      obtain ⟨hlt, -⟩ := List.getElem?_eq_some_iff.mp h
      simpa using hlt
    rw [hzero] at h
    exact Or.inl ⟨by omega, by simpa using h.symm⟩

theorem getElem?_append_of_some {β : Type} {l : List β} {b : β} {k : Nat} (h : l[k]? = some b)
    (added : List β) : (l ++ added)[k]? = some b :=
  (List.getElem?_append_left (List.getElem?_eq_some_iff.mp h).1).trans h

namespace Machine

/-! ## Finding a worker after a change -/

variable {m : Machine α} {n k : Nat} {w w' : Worker α}

theorem setPhase_workers (m : Machine α) (n : Nat) (p : WorkerPhase α) :
    (m.setPhase n p).workers = m.workers.modify n fun w => { w with phase := p } := rfl

@[simp] theorem length_setPhase (m : Machine α) (n : Nat) (p : WorkerPhase α) :
    (m.setPhase n p).workers.length = m.workers.length := by
  simp [setPhase_workers]

theorem setPhase_self (hw : m.workers[n]? = some w) (p : WorkerPhase α) :
    (m.setPhase n p).workers[n]? = some { w with phase := p } := by
  simp [setPhase_workers, hw]

theorem setPhase_other (hk : k ≠ n) (p : WorkerPhase α) :
    (m.setPhase n p).workers[k]? = m.workers[k]? := by
  rw [setPhase_workers, List.getElem?_modify_ne _ _ (Ne.symm hk)]

/-- The inversion of `Machine.setPhase`, by which every invariant of the form "each worker satisfies
`P`" is carried over a worker's step: only worker `n` has to be looked at again. -/
theorem worker_of_setPhase {p : WorkerPhase α} (hw : m.workers[n]? = some w)
    (h : (m.setPhase n p).workers[k]? = some w') :
    k = n ∧ w' = { w with phase := p } ∨ k ≠ n ∧ m.workers[k]? = some w' := by
  by_cases hk : k = n
  · subst hk
    rw [setPhase_self hw] at h
    exact Or.inl ⟨rfl, (Option.some.inj h).symm⟩
  · refine Or.inr ⟨hk, ?_⟩
    rw [← setPhase_other hk p]
    exact h

@[simp] theorem items_setPhase (m : Machine α) (n : Nat) (p : WorkerPhase α) :
    (m.setPhase n p).workers.map (·.item) = m.workers.map (·.item) := by
  refine List.ext_getElem? fun k => ?_
  rw [List.getElem?_map, List.getElem?_map, setPhase_workers, List.getElem?_modify]
  cases m.workers[k]? with
  | none => rfl
  | some w => by_cases h : n = k <;> simp [h]

/-! ## What a property of phases says of the list -/

/-- The phases seen through one Boolean each, in the order of the numbers. `inFlight` and the counts
of endings are read off such lists, so that `marks_keep` settles all steps that change nothing they
see. -/
def marks (mark : WorkerPhase α → Bool) (ws : List (Worker α)) : List Bool :=
  ws.map fun w => mark w.phase

@[simp] theorem length_marks (mark : WorkerPhase α → Bool) (ws : List (Worker α)) :
    (marks mark ws).length = ws.length := List.length_map _

theorem marks_concat (mark : WorkerPhase α → Bool) (ws : List (Worker α)) (w : Worker α) :
    marks mark (ws ++ [w]) = marks mark ws ++ [mark w.phase] := List.map_append

theorem marks_getElem? (mark : WorkerPhase α → Bool) (hw : m.workers[n]? = some w) :
    (marks mark m.workers)[n]? = some (mark w.phase) := by
  simp [marks, hw]

theorem marks_setPhase (mark : WorkerPhase α → Bool) (hw : m.workers[n]? = some w)
    (p : WorkerPhase α) :
    marks mark (m.setPhase n p).workers = (marks mark m.workers).set n (mark p) := by
  refine List.ext_getElem? fun k => ?_
  obtain ⟨hn, -⟩ := List.getElem?_eq_some_iff.mp hw
  rw [marks, marks, setPhase_workers, List.getElem?_map, List.getElem?_modify, List.getElem?_set,
    List.getElem?_map]
  by_cases h : n = k
  · subst h
    simp [hn]
  · simp [h]

theorem marks_keep (mark : WorkerPhase α → Bool) (hw : m.workers[n]? = some w)
    {p : WorkerPhase α} (hp : mark p = mark w.phase) :
    marks mark (m.setPhase n p).workers = marks mark m.workers := by
  obtain ⟨hlt, hget⟩ := List.getElem?_eq_some_iff.mp (marks_getElem? mark hw)
  rw [marks_setPhase mark hw, hp, ← hget, List.set_getElem_self]

/-! ## Workers in flight -/

/-- The workers that hold a ticket; by `TicketsOk` this is their share of what the gate counts as
outstanding. -/
def inFlight (ws : List (Worker α)) : Nat := ws.countP (·.phase.holdsTicket)

theorem inFlight_setPhase (hw : m.workers[n]? = some w) (p : WorkerPhase α) :
    inFlight (m.setPhase n p).workers + w.phase.holdsTicket.toNat =
      inFlight m.workers + p.holdsTicket.toNat :=
  countP_modify hw

theorem over_of_inFlight_zero (h : inFlight m.workers = 0) (hw : m.workers[n]? = some w) :
    ∃ e, w.phase = .closing e ∨ w.phase = .ended e := by
  have hnot := List.countP_eq_zero.mp h w (List.mem_of_getElem? hw)
  exact WorkerPhase.ending?_of_not_holdsTicket (by simpa using hnot)

theorem inFlight_ne_zero (hw : m.workers[n]? = some w)
    (hholds : w.phase.holdsTicket = true) : inFlight m.workers ≠ 0 := by
  intro hzero
  obtain ⟨e, hp | hp⟩ := over_of_inFlight_zero hzero hw
  all_goals
    rw [hp] at hholds
    cases hholds

theorem ending_of_inFlight_zero (h : inFlight m.workers = 0) (hw : m.workers[n]? = some w) :
    ∃ e, w.phase.ending? = some e ∧ (w.phase = .closing e ∨ w.phase = .ended e) := by
  obtain ⟨e, hphase⟩ := over_of_inFlight_zero h hw
  refine ⟨e, ?_, hphase⟩
  rcases hphase with hp | hp
  all_goals
    rw [hp]
    rfl

end Machine

end WorkBundle
