import WorkBundle.Proofs.Runs
import WorkBundle.Proofs.Transition

/-!
# Runs and their history

A run is a list of moves, each of which can happen when its turn comes. What holds at its end is
proved by one induction, packaged here twice: `run_invariant` for what a state says by itself, and
`run_induction` for what relates the state to the moves that led to it, such as the calls that
were made and their replies.

`Machine.exchanges` pairs every reply with its call. At most one call is in progress, so a
reply belongs to the call that was made last; a call that was abandoned gets none.
-/

set_option autoImplicit false

namespace WorkBundle

variable {α : Type}

namespace Machine

/-! ## Runs -/

theorem run_cons (m : Machine α) (move : Move α) (moves : List (Move α)) :
    m.run (move :: moves) = (m.step move).bind (·.run moves) := rfl

theorem run_append (m : Machine α) (moves later : List (Move α)) :
    m.run (moves ++ later) = (m.run moves).bind (·.run later) :=
  List.foldlM_append

theorem run_singleton (m : Machine α) (move : Move α) : m.run [move] = m.step move :=
  foldlM_singleton m move

theorem run_trans {m m₁ m₂ : Machine α} {moves later : List (Move α)}
    (h₁ : m.run moves = some m₁) (h₂ : m₁.run later = some m₂) :
    m.run (moves ++ later) = some m₂ := by
  rw [run_append, h₁]
  exact h₂

/-- What every transition keeps holds at the end of every run. The invariants of this project are
proved by this and `run_induction`; neither unfolds `Machine.step`. -/
theorem run_invariant {I : Machine α → Prop}
    (hstep : ∀ {m m' : Machine α} {move : Move α}, I m → Transition m move m' → I m')
    {m m' : Machine α} {moves : List (Move α)} (h : I m) (hrun : m.run moves = some m') : I m' :=
  foldlM_invariant (A := fun _ => True) (fun h _ hs => hstep h (transition_of_step hs)) h
    (fun _ _ => trivial) hrun

/-! ## Calls and their replies -/

/-- The call that was made last, where `current` was the last one before. The engine does not
remember it: its phases carry no more than they need. -/
def lastCall (current : Option (Call α)) (moves : List (Move α)) : Option (Call α) :=
  moves.foldl (fun current move => move.call?.or current) current

/-- The replies that a step has added, each with `current`, the call it belongs to; calls do not
overlap, so that is the last one. -/
def answered (m m' : Machine α) (current : Option (Call α)) : List (Call α × Reply) :=
  (m'.replies.drop m.replies.length).filterMap fun reply => current.map (·, reply)

def exchangesFrom (m : Machine α) (current : Option (Call α)) :
    List (Move α) → List (Call α × Reply)
  | [] => []
  | move :: moves =>
    match m.step move with
    | none => []
    | some m' =>
      m.answered m' (move.call?.or current) ++ m'.exchangesFrom (move.call?.or current) moves

/-- The calls of a run that have ended, oldest first, each with its `Reply`. A call that was given
up has none, and does not occur here. -/
def exchanges (m : Machine α) (moves : List (Move α)) : List (Call α × Reply) :=
  m.exchangesFrom none moves

theorem exchangesFrom_concat {m₀ m m' : Machine α} {moves : List (Move α)} {move : Move α}
    {current : Option (Call α)} (hrun : m₀.run moves = some m) (hstep : m.step move = some m') :
    m₀.exchangesFrom current (moves ++ [move]) = m₀.exchangesFrom current moves ++
      m.answered m' (lastCall current (moves ++ [move])) := by
  induction moves generalizing m₀ current with
  | nil =>
    cases hrun
    simp [exchangesFrom, hstep, lastCall]
  | cons first moves ih =>
    obtain ⟨m₁, h₁, h₂⟩ := Option.bind_eq_some_iff.mp hrun
    simp only [List.cons_append, exchangesFrom, h₁, ih h₂, List.append_assoc]
    rfl

theorem answered_of_replies_eq {m m' : Machine α} {current : Option (Call α)}
    (h : m'.replies = m.replies) : m.answered m' current = [] := by
  simp [answered, h]

theorem answered_of_reply {m m' : Machine α} {current : Option (Call α)} {reply : Reply}
    (h : m'.replies = m.replies ++ [reply]) :
    m.answered m' current = (current.map (·, reply)).toList := by
  rw [answered, h, List.drop_left]
  cases current <;> rfl

theorem lastCall_concat (current : Option (Call α)) (moves : List (Move α)) (move : Move α) :
    lastCall current (moves ++ [move]) = move.call?.or (lastCall current moves) := by
  rw [lastCall, List.foldl_append]
  rfl

theorem exchanges_concat {m₀ m m' : Machine α} {moves : List (Move α)} {move : Move α}
    (hrun : m₀.run moves = some m) (hstep : m.step move = some m') :
    m₀.exchanges (moves ++ [move]) =
      m₀.exchanges moves ++ m.answered m' (lastCall none (moves ++ [move])) :=
  exchangesFrom_concat hrun hstep

theorem exchanges_concat_of_silent {m₀ m m' : Machine α} {moves : List (Move α)} {move : Move α}
    (hrun : m₀.run moves = some m) (hstep : m.step move = some m')
    (h : m'.replies = m.replies) : m₀.exchanges (moves ++ [move]) = m₀.exchanges moves := by
  rw [exchanges_concat hrun hstep, answered_of_replies_eq h, List.append_nil]

theorem exchanges_concat_of_reply {m₀ m m' : Machine α} {moves : List (Move α)} {move : Move α}
    {c : Call α} {reply : Reply} (hrun : m₀.run moves = some m) (hstep : m.step move = some m')
    (h : m'.replies = m.replies ++ [reply]) (hcall : lastCall none (moves ++ [move]) = some c) :
    m₀.exchanges (moves ++ [move]) = m₀.exchanges moves ++ [(c, reply)] := by
  rw [exchanges_concat hrun hstep, answered_of_reply h, hcall]
  rfl

/-- What holds at the beginning, and is kept when a run is made longer by one step, holds of every
run. A history such as `exchanges` grows at its end, so the induction is from behind. -/
theorem run_induction {m₀ : Machine α} {Q : List (Move α) → Machine α → Prop} (h₀ : Q [] m₀)
    (hstep : ∀ {moves : List (Move α)} {m m' : Machine α} {move : Move α},
      m₀.run moves = some m → Q moves m → m.step move = some m' → Q (moves ++ [move]) m')
    {m : Machine α} {moves : List (Move α)} (hrun : m₀.run moves = some m) : Q moves m :=
  foldlM_induction h₀ hstep hrun

/-! ## Counting steps -/

/-- How many steps of a run are of this kind, told by the states before and after. The kinds are
Boolean so that samples can be evaluated. -/
def countSteps (kind : Machine α → Machine α → Bool) (m : Machine α) : List (Move α) → Nat
  | [] => 0
  | move :: moves =>
    match m.step move with
    | none => 0
    | some m' => (kind m m').toNat + m'.countSteps kind moves

theorem countSteps_concat {kind : Machine α → Machine α → Bool} {m₀ m m' : Machine α}
    {moves : List (Move α)} {move : Move α} (hrun : m₀.run moves = some m)
    (hstep : m.step move = some m') :
    m₀.countSteps kind (moves ++ [move]) = m₀.countSteps kind moves + (kind m m').toNat := by
  induction moves generalizing m₀ with
  | nil =>
    cases hrun
    simp [countSteps, hstep]
  | cons first moves ih =>
    obtain ⟨m₁, h₁, h₂⟩ := Option.bind_eq_some_iff.mp hrun
    simp only [List.cons_append, countSteps, h₁, ih h₂]
    omega

end Machine

/-! ## What happens in a run -/

namespace Machine

/-- Somewhere in the run a move is made of which `P` is true, and of the engine before it. It is
stated by cutting the run there, so that what led to the move is a run again. -/
def Happens (m₀ : Machine α) (moves : List (Move α)) (P : Machine α → Move α → Prop) : Prop :=
  ∃ before move after m, moves = before ++ move :: after ∧ m₀.run before = some m ∧ P m move

theorem not_happens_nil (m₀ : Machine α) (P : Machine α → Move α → Prop) : ¬ m₀.Happens [] P :=
  not_happensIn_nil m₀.run P

theorem happens_concat {m₀ m : Machine α} {moves : List (Move α)} {move : Move α}
    {P : Machine α → Move α → Prop} (hrun : m₀.run moves = some m) :
    m₀.Happens (moves ++ [move]) P ↔ m₀.Happens moves P ∨ P m move :=
  happensIn_concat hrun

end Machine

end WorkBundle
