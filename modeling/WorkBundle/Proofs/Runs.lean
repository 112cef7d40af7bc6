import Mathlib.Data.List.Induction

/-!
# Runs of a step function

A system is a step function `step : σ → μ → Option σ`, which is `none` where a move cannot be made,
and a run of it is `moves.foldlM step s`. The engine (`Machine.run`), a bundle with its plan
(`Run.follow`), a shared cell (`CellUse.run`), a registry (`RegistryUse.run`) and failures in use
(`FailureUse.run`) all run in this way, so the induction along a run is made here and nowhere else.

`foldlM_induction` is for what relates a state to the moves that have led to it. A history grows at
its end, so it takes the moves from behind; `foldlM_invariant` is the case in which the state says
everything by itself. `HappensIn` is for what holds at some point of a run.
-/

set_option autoImplicit false

namespace WorkBundle

variable {σ μ : Type} {step : σ → μ → Option σ}

/-! ## The induction along a run -/

theorem foldlM_singleton (s : σ) (move : μ) : [move].foldlM step s = step s move := by
  rw [List.foldlM_cons]
  cases step s move <;> rfl

/-- A run of `moves ++ [move]` is one of `moves` with a step after it. -/
theorem foldlM_concat_eq_some {s s' : σ} {moves : List μ} {move : μ}
    (h : (moves ++ [move]).foldlM step s = some s') :
    ∃ s₁, moves.foldlM step s = some s₁ ∧ step s₁ move = some s' := by
  rw [List.foldlM_append] at h
  obtain ⟨s₁, h₁, h₂⟩ := Option.bind_eq_some_iff.mp h
  exact ⟨s₁, h₁, by rwa [foldlM_singleton] at h₂⟩

/-- What holds of the empty run, and is kept when a run is made longer by one `step`, holds of every
run and the state it ends in. -/
theorem foldlM_induction {s₀ : σ} {Q : List μ → σ → Prop} (h₀ : Q [] s₀)
    (hstep : ∀ {moves : List μ} {s s' : σ} {move : μ}, moves.foldlM step s₀ = some s → Q moves s →
      step s move = some s' → Q (moves ++ [move]) s')
    {s : σ} {moves : List μ} (hrun : moves.foldlM step s₀ = some s) : Q moves s := by
  induction moves using List.reverseRecOn generalizing s with
  | nil =>
    cases hrun
    exact h₀
  | append_singleton moves move ih =>
    obtain ⟨s₁, h₁, h₂⟩ := foldlM_concat_eq_some hrun
    exact hstep h₁ (ih h₁) h₂

/-- What every step keeps whose move is allowed by `A` holds at the end of a run of such moves. -/
theorem foldlM_invariant {I : σ → Prop} {A : μ → Prop}
    (hstep : ∀ {s s' : σ} {move : μ}, I s → A move → step s move = some s' → I s')
    {s s' : σ} {moves : List μ} (h : I s) (hmoves : ∀ move ∈ moves, A move)
    (hrun : moves.foldlM step s = some s') : I s' := by
  refine foldlM_induction (Q := fun moves s => (∀ move ∈ moves, A move) → I s) (fun _ => h) ?_ hrun
    hmoves
  intro moves s s' move _ ih hs hall
  obtain ⟨hbefore, hlast⟩ := List.forall_mem_append.mp hall
  exact hstep (ih hbefore) (hlast move List.mem_cons_self) hs

/-! ## What happens in a run -/

theorem cut_of_concat {β : Type} {l earlier later : List β} {e x : β}
    (h : l ++ [e] = earlier ++ x :: later) :
    (l = earlier ∧ e = x) ∨ ∃ later', l = earlier ++ x :: later' := by
  rcases List.eq_nil_or_concat later with rfl | ⟨later', y, rfl⟩
  · obtain ⟨rfl, hlast⟩ := List.append_inj' h rfl
    exact Or.inl ⟨rfl, List.singleton_inj.mp hlast⟩
  · have hcut : l ++ [e] = (earlier ++ x :: later') ++ [y] := by simpa using h
    exact Or.inr ⟨later', (List.append_inj' hcut rfl).1⟩

/-- What holds wherever a list is cut holds of one that is longer by an entry, once it holds of that
entry. -/
theorem forall_cut_concat {β : Type} {P : List β → β → Prop} {l l' : List β} {e : β}
    (hl : l' = l ++ [e]) (h : ∀ earlier x later, l = earlier ++ x :: later → P earlier x)
    (he : P l e) : ∀ earlier x later, l' = earlier ++ x :: later → P earlier x := by
  intro earlier x later hcut
  rcases cut_of_concat (hl.symm.trans hcut) with ⟨rfl, rfl⟩ | ⟨later', hcut'⟩
  · exact he
  · exact h earlier x later' hcut'

/-- Somewhere among these moves one is made of which `P` is true, together with the state before it,
where `reach` tells the state that moves lead to. -/
def HappensIn (reach : List μ → Option σ) (moves : List μ) (P : σ → μ → Prop) : Prop :=
  ∃ before move after s, moves = before ++ move :: after ∧ reach before = some s ∧ P s move

theorem not_happensIn_nil (reach : List μ → Option σ) (P : σ → μ → Prop) :
    ¬ HappensIn reach [] P := by
  rintro ⟨before, move, after, _, hsplit, -⟩
  exact absurd hsplit.symm (by simp)

theorem happensIn_concat {reach : List μ → Option σ} {moves : List μ} {move : μ} {s : σ}
    {P : σ → μ → Prop} (hreach : reach moves = some s) :
    HappensIn reach (moves ++ [move]) P ↔ HappensIn reach moves P ∨ P s move := by
  constructor
  · rintro ⟨before, last, after, s₁, hsplit, hreach₁, hP⟩
    rcases cut_of_concat hsplit with ⟨rfl, rfl⟩ | ⟨after', rfl⟩
    · cases hreach.symm.trans hreach₁
      exact Or.inr hP
    · exact Or.inl ⟨before, last, after', s₁, rfl, hreach₁, hP⟩
  · rintro (⟨before, last, after, s₁, rfl, hreach₁, hP⟩ | hP)
    · exact ⟨before, last, after ++ [move], s₁, by simp, hreach₁, hP⟩
    · exact ⟨moves, move, [], s, rfl, hreach, hP⟩

end WorkBundle
