import WorkBundle.Proofs.Loss

/-!
# One failure for a bundle

The failures with which calls are answered come from two places: the cell, and a submission whose
item the backend has refused. A submission whose refusal comes too late — a worker has failed
between its look at the cell and its own offer — counts the refusal as a late failure like any
other, but answers with it all the same. `LateRefusal` says that this has happened; apart from it
every failure that is ever returned is the captured one.

That a late refusal is another failure than the captured one rests on identities: a failure is
made with a number that no failure in use has (`Distinct`).
-/

set_option autoImplicit false

namespace WorkBundle

variable {α : Type}

namespace Machine

/-! ## Identities -/

/-- A failure with this identity is in the cell or `pending?` with a worker. -/
def Known (m : Machine α) (k : Nat) : Prop :=
  (∃ f, m.cell.captured = some f ∧ f.identity = k) ∨
    ∃ (n : Nat) (w : Worker α) (f : Failure),
      m.workers[n]? = some w ∧ w.phase.pending? = some f ∧ f.identity = k

/-- No identity is used twice: the refusal in the hands of the producer is none of the `Known`
failures, and the next failure that is made (`minted`) is neither. So whether two failures are the
same is whether their identities are equal. -/
structure Distinct (m : Machine α) : Prop where
  known : ∀ k, m.Known k → k < m.minted
  refusal : ∀ f, m.producer.pending? = some f → f.identity < m.minted ∧ ¬ m.Known f.identity

theorem PhaseStep.pending_inv {m m' : Machine α} {move : Move α} {n : Nat} {p q : WorkerPhase α}
    {f : Failure} (how : PhaseStep m m' move n p q) (hq : q.pending? = some f) :
    p.pending? = some f ∨ f.identity = m.minted ∧ m.minted < m'.minted := by
  cases how with
  | failed minted =>
    cases hq
    exact Or.inr ⟨rfl, by rw [minted]; exact Nat.lt_succ_self _⟩
  | late => exact Or.inl hq
  | _ => cases hq

/-- A step makes a failure `Known` that is new, or was known, or was the refusal of the producer.
Nothing copies a failure. -/
theorem known_step {m m' : Machine α} {move : Move α} {k : Nat} (h : Transition m move m')
    (hk : m'.Known k) :
    m.Known k ∨ (k = m.minted ∧ m.minted < m'.minted) ∨
      ∃ f, m.producer.pending? = some f ∧ f.identity = k ∧ m'.producer = .idle := by
  rcases hk with ⟨f, hf, rfl⟩ | ⟨n, w', f, hw', hf, rfl⟩
  · cases (cellStep h).1 with
    | same cell => exact Or.inl (Or.inl ⟨f, by rw [← cell]; exact hf, rfl⟩)
    | @worker n w g e _ worker phase full =>
      obtain rfl : g = f := Option.some.inj (full.symm.trans hf)
      exact Or.inl (Or.inr ⟨n, w, g, worker, by rw [phase]; rfl, rfl⟩)
    | @refusal g _ phase idle full =>
      obtain rfl : g = f := Option.some.inj (full.symm.trans hf)
      exact Or.inr (Or.inr ⟨g, by rw [phase]; rfl, rfl, idle⟩)
  · have hold (hw : m.workers[n]? = some w') : m.Known f.identity :=
      Or.inr ⟨n, w', f, hw, hf, rfl⟩
    cases workersStep h with
    | same workers => exact Or.inl (hold (by rw [← workers]; exact hw'))
    | more _ workers =>
      rw [workers] at hw'
      rcases getElem?_concat_cases hw' with ⟨-, rfl⟩ | hw
      · cases hf
      · exact Or.inl (hold hw)
    | @change _ w _ worker workers how =>
      rw [workers] at hw'
      rcases worker_of_setPhase worker hw' with ⟨rfl, rfl⟩ | ⟨-, hw⟩
      · rcases how.pending_inv hf with hp | hfresh
        · exact Or.inl (Or.inr ⟨_, w, f, worker, hp, rfl⟩)
        · exact Or.inr (Or.inl hfresh)
      · exact Or.inl (hold hw)

theorem pending_step {m m' : Machine α} {move : Move α} {f : Failure} (h : Transition m move m')
    (hf : m'.producer.pending? = some f) :
    m.producer.pending? = some f ∨
      (f.identity = m.minted ∧ m.minted < m'.minted ∧ ∀ k, m'.Known k → m.Known k) := by
  have hold (hp : m'.producer = m.producer) : m.producer.pending? = some f := hp ▸ hf
  cases h with
  | violation | start | submit | finish | abandonStart | abandonWait | abandonFinish => cases hf
  | worker _ hstep => exact Or.inl (hold (SameCall.of_worker hstep).producer)
  | drop _ _ hstep => exact Or.inl (hold (SameCall.of_drop hstep).producer)
  | cancel | world => exact Or.inl hf
  | producer hstep =>
    cases hstep with
    | startOn | finishOn | keep | refusalCaptured | refusalCounted => cases hf
    | @startEnd _ outcome | @finishEnd _ outcome => cases outcome <;> cases hf
    | ask phase =>
      unfold askTicket askGate at hf
      split at hf
      · exact Or.inl hf
      all_goals cases hf
    | drain phase =>
      unfold askEverything askGate at hf
      split at hf
      · exact Or.inl hf
      all_goals cases hf
    | check =>
      unfold check at hf
      split at hf <;> cases hf
    | conclude =>
      unfold conclude at hf
      split at hf <;> cases hf
    | @hand item =>
      rcases m.hand_cases item with ⟨-, heq⟩ | ⟨-, heq⟩ | ⟨-, -, heq⟩
      all_goals
        rw [heq] at hf
        cases hf
    | @dropPolled n w a =>
      rw [(SameCall.lose { m with producer := .dropping n } n a).producer] at hf
      cases hf
    | dropQueued => exact Or.inl hf
    | refusalLate phase => exact Or.inl (by rw [phase]; exact hf)
    -- A refusal is made here, with the next free identity.
    | @answer n w e _ worker closing =>
      rcases (m.setPhase n (.ended e)).verdictOf_cases n with ⟨-, heq⟩ | ⟨-, heq⟩
      · rw [heq] at hf ⊢
        cases hf
        refine Or.inr ⟨rfl, Nat.lt_succ_self _, ?_⟩
        rintro k (hcell | ⟨n', w', g, hw', hg, rfl⟩)
        · exact Or.inl hcell
        · rcases worker_of_setPhase worker hw' with ⟨rfl, rfl⟩ | ⟨-, hw'⟩
          · cases hg
          · exact Or.inr ⟨n', w', g, hw', hg, rfl⟩
      · rw [heq] at hf
        cases hf

namespace Distinct

theorem new (setup : Setup α) (scope : Scope) : (Machine.new setup scope).Distinct := by
  refine ⟨?_, fun f hf => by cases hf⟩
  rintro k (⟨f, hf, -⟩ | ⟨n, w, f, hw, -⟩)
  · cases hf
  · cases hw

theorem step {m m' : Machine α} {move : Move α} (hd : m.Distinct) (h : Transition m move m') :
    m'.Distinct := by
  have hminted := (cellStep h).2.minted
  refine ⟨fun k hk => ?_, fun f hf => ?_⟩
  · rcases known_step h hk with hold | ⟨rfl, hlt⟩ | ⟨f, hf, rfl, -⟩
    · exact Nat.lt_of_lt_of_le (hd.known k hold) hminted
    · exact hlt
    · exact Nat.lt_of_lt_of_le (hd.refusal f hf).1 hminted
  · rcases pending_step h hf with hold | ⟨hid, hlt, hknown⟩
    · obtain ⟨hlt, hnew⟩ := hd.refusal f hold
      refine ⟨Nat.lt_of_lt_of_le hlt hminted, fun hk => ?_⟩
      rcases known_step h hk with hk | ⟨hid, -⟩ | ⟨g, -, -, hidle⟩
      · exact hnew hk
      · omega
      · rw [hidle] at hf
        cases hf
    · refine ⟨hid ▸ hlt, fun hk => ?_⟩
      have := hd.known _ (hknown _ hk)
      omega

theorem run {setup : Setup α} {scope : Scope} {moves : List (Move α)} {m : Machine α}
    (hrun : (Machine.new setup scope).run moves = some m) : m.Distinct :=
  run_invariant (fun hd h => hd.step h) (new setup scope) hrun

end Distinct

/-! ## The failures that are returned -/

/-- Somewhere in the run a submission was answered with a refusal that was `outdone`: another
failure was in the cell when it was offered. -/
def LateRefusal (m₀ : Machine α) (moves : List (Move α)) (f : Failure) : Prop :=
  m₀.Happens moves fun m move => move = .producer ∧ m.producer = .outdone f

/-- The failure is another one than the captured one: the refusal of the item of this call. -/
def IsOtherFailure (m : Machine α) (c : Call α) (f : Failure) : Prop :=
  m.IsRefusal f ∧ (∃ item, c = .submit item ∧ m.items[f.item]? = some item) ∧
    ∃ g, m.cell.captured = some g ∧ g.same f = false

theorem item_step {m m' : Machine α} {move : Move α} {n : Nat} {item : WorkItem α}
    (h : Transition m move m') (hn : m.items[n]? = some item) : m'.items[n]? = some item := by
  cases workersStep h with
  | same workers =>
    rw [items, workers]
    exact hn
  | more _ workers =>
    rw [items, workers, List.map_append]
    exact (List.getElem?_append_left (List.getElem?_eq_some_iff.mp hn).1).trans hn
  | @change k _ p _ workers =>
    rw [items, workers, m.items_setPhase k p]
    exact hn

theorem IsOtherFailure.step {m m' : Machine α} {move : Move α} {c : Call α} {f : Failure}
    (ho : m.IsOtherFailure c f) (h : Transition m move m') : m'.IsOtherFailure c f := by
  obtain ⟨hrefusal, ⟨item, hc, hitem⟩, g, hg, hother⟩ := ho
  refine ⟨?_, ⟨item, hc, item_step h hitem⟩, g, captured_step h hg, hother⟩
  unfold IsRefusal verdict at hrefusal ⊢
  rwa [(cellStep h).2.setup]

theorem isOtherFailure_of_outdone {m : Machine α} {current : Option (Call α)} {f : Failure}
    (hord : m.Orderly current) (hj : m.Judged m.producer) (hd : m.Distinct)
    (hp : m.producer = .outdone f) : ∃ c, current = some c ∧ m.IsOtherFailure c f := by
  have hserves := hord.serves
  rw [hp] at hserves hj
  obtain ⟨earlier, item, hitems, hlength, hcurrent⟩ := hserves
  obtain ⟨hrefusal, hfull⟩ := hj
  obtain ⟨g, hg⟩ := Option.isSome_iff_exists.mp hfull
  refine ⟨_, hcurrent, hrefusal, ⟨item, rfl, ?_⟩, g, hg, ?_⟩
  · have hlength : earlier.length = f.item := hlength
    rw [hitems, ← hlength]
    simp
  · have hnew := (hd.refusal f (by rw [hp]; rfl)).2
    have hne : g.identity ≠ f.identity := fun heq => hnew (Or.inl ⟨g, hg, heq⟩)
    simpa [Failure.same] using hne

/-- The failure of a call that ends is the captured one, unless the call was `outdone`. All other
places of the code that answer with a failure read the cell for it. -/
theorem failure_of_end {m m' : Machine α} {move : Move α} {r : Reply} {f : Failure}
    (h : Transition m move m') (how : CallEnd m m' r) (hr : r.failure? = some f) :
    m'.cell.captured = some f ∨ m.producer = .outdone f := by
  cases how with
  | violation | cancelled | left | taken => cases hr
  | startHook | finishHook =>
    rw [failure?_hookReply] at hr
    cases hr
  | tooLate _ full | failed _ full =>
    cases hr
    exact Or.inl (captured_step h full)
  | refused _ _ full =>
    cases hr
    exact Or.inl full
  | outdone phase =>
    cases hr
    exact Or.inr phase

/-- What a run says about the failures it has returned: each is the captured one or a `LateRefusal`,
and every late refusal was returned. -/
structure Returns (m₀ : Machine α) (moves : List (Move α)) (m : Machine α) : Prop where
  source : ∀ c r f, (c, r) ∈ m₀.exchanges moves → r.failure? = some f →
    m.cell.captured = some f ∨ m₀.LateRefusal moves f ∧ m.IsOtherFailure c f
  late : ∀ f, m₀.LateRefusal moves f →
    ∃ c r, (c, r) ∈ m₀.exchanges moves ∧ r.failure? = some f ∧ m.IsOtherFailure c f

theorem mem_answered {m m' : Machine α} {current : Option (Call α)} {c : Call α} {r reply : Reply}
    (hreplies : m'.replies = m.replies ++ [reply]) :
    (c, r) ∈ m.answered m' current ↔ current = some c ∧ r = reply := by
  rw [answered_of_reply hreplies, Option.mem_toList, Option.map_eq_some_iff]
  constructor
  · rintro ⟨c', hc, hpair⟩
    cases hpair
    exact ⟨hc, rfl⟩
  · rintro ⟨hc, rfl⟩
    exact ⟨c, hc, rfl⟩

theorem Returns.step {m₀ m m' : Machine α} {moves : List (Move α)} {move : Move α}
    (hret : m₀.Returns moves m) (hrun : m₀.run moves = some m) (hstep : m.step move = some m')
    (hord : m.Orderly (lastCall none moves)) (hj : m.Judged m.producer) (hd : m.Distinct) :
    m₀.Returns (moves ++ [move]) m' := by
  have ht := transition_of_step hstep
  have hex := exchanges_concat hrun hstep
  have hlate (f : Failure) : m₀.LateRefusal (moves ++ [move]) f ↔
      m₀.LateRefusal moves f ∨ move = .producer ∧ m.producer = .outdone f := happens_concat hrun
  refine ⟨fun c r f hmem hr => ?_, fun f hf => ?_⟩
  · rw [hex, lastCall_concat] at hmem
    rw [hlate]
    rcases List.mem_append.mp hmem with hmem | hmem
    -- The call was answered before: what was captured stays captured.
    · rcases hret.source c r f hmem hr with hcap | ⟨hf, hother⟩
      · exact Or.inl (captured_step ht hcap)
      · exact Or.inr ⟨Or.inl hf, hother.step ht⟩
    · cases callStep ht with
      | goesOn replies =>
        rw [answered_of_replies_eq replies] at hmem
        cases hmem
      | ends replies _ _ how own =>
        obtain ⟨hcurrent, rfl⟩ := (mem_answered replies).mp hmem
        refine (failure_of_end ht how hr).imp_right fun hp => ?_
        obtain ⟨c', hc', hother⟩ := isOtherFailure_of_outdone hord hj hd hp
        have hmove : move = .producer := own.resolve_right (by rw [hp]; nofun)
        obtain rfl : c' = c := by
          rw [hmove] at hcurrent
          exact Option.some.inj (hc'.symm.trans hcurrent)
        exact ⟨Or.inr ⟨hmove, hp⟩, hother.step ht⟩
  · rw [hex, lastCall_concat]
    rcases (hlate f).mp hf with hold | ⟨rfl, hp⟩
    · obtain ⟨c, r, hmem, hr, hother⟩ := hret.late f hold
      exact ⟨c, r, List.mem_append_left _ hmem, hr, hother.step ht⟩
    · obtain ⟨c, hcurrent, hother⟩ := isOtherFailure_of_outdone hord hj hd hp
      refine ⟨c, .answer (.error f.toError), List.mem_append_right _ ?_, rfl, hother.step ht⟩
      have hreplies : m'.replies = m.replies ++ [.answer (.error f.toError)] := by
        simp only [Machine.step, stepProducer, hp, Option.some.injEq] at hstep
        rw [← hstep]
        rfl
      exact (mem_answered hreplies).mpr ⟨hcurrent, rfl⟩

theorem returns_run {setup : Setup α} {scope : Scope} {moves : List (Move α)} {m : Machine α}
    (hrun : (Machine.new setup scope).run moves = some m) :
    (Machine.new setup scope).Returns moves m := by
  refine run_induction ?_ (fun hrun hret hstep => ?_) hrun
  · exact ⟨fun c r f hmem => (by cases hmem), fun f hf => absurd hf (not_happens_nil _ _)⟩
  · exact hret.step hrun hstep (drains hrun).orderly (judged_run hrun) (Distinct.run hrun)

/-- A bundle returns one failure, the captured one, exactly when no refusal came too late. The
cell is written once, so there is one captured failure for the whole bundle; what a call returns
besides is the refusal of its own item, which is another failure. -/
theorem one_failure_iff_no_late_refusal {setup : Setup α} {scope : Scope} {moves : List (Move α)}
    {m : Machine α} (hrun : (Machine.new setup scope).run moves = some m) :
    (∀ before after m₁ f, moves = before ++ after →
      (Machine.new setup scope).run before = some m₁ → m₁.cell.captured = some f →
        m.cell.captured = some f) ∧
    (∀ c r f, (c, r) ∈ (Machine.new setup scope).exchanges moves → r.failure? = some f →
      m.cell.captured = some f ∨
        (Machine.new setup scope).LateRefusal moves f ∧ m.IsOtherFailure c f) ∧
    ((∀ c r f, (c, r) ∈ (Machine.new setup scope).exchanges moves → r.failure? = some f →
        m.cell.captured = some f) ↔
      ∀ f, ¬ (Machine.new setup scope).LateRefusal moves f) := by
  have hret := returns_run hrun
  refine ⟨?_, hret.source, ?_, ?_⟩
  · rintro before after m₁ f rfl hbefore hf
    rw [run_append, hbefore] at hrun
    exact captured_run hrun hf
  · intro hall f hf
    obtain ⟨c, r, hmem, hr, -, -, g, hg, hother⟩ := hret.late f hf
    have hcap := hall c r f hmem hr
    rw [hcap] at hg
    -- Returned as the captured failure, the late refusal would differ from itself.
    cases hg
    simp [Failure.same] at hother
  · intro hnone c r f hmem hr
    rcases hret.source c r f hmem hr with hcap | ⟨hf, -⟩
    · exact hcap
    · exact absurd hf (hnone f)

/-- A backend that runs a task up to its end, and then refuses its item. -/
def hastySetup : Setup Nat :=
  { soloSetup with
    backend := { name := "hasty", receive := fun _ => { polled := true, verdict := .refuse } } }

/-- The element fails while the backend has its task in hand. -/
def hastyMoves : List (Move Nat) :=
  [.call .start, .producer,
    .call (.submit { value := 7, script := [.fail (.user "boom" [])] }),
    .producer, .producer, .producer, .worker 0, .worker 0, .worker 0, .worker 0,
    .producer, .producer, .producer, .call .finish, .producer, .producer]

def hastyFailure : Failure := ⟨0, 0, .user "boom" []⟩

def hastyRefusal : Failure := ⟨0, 1, .execution (.backend 0 "worker pool is shut down")⟩

theorem one_failure_iff_no_late_refusal_hasty :
    ∃ m, (Machine.new hastySetup).run hastyMoves = some m ∧
      m.cell.captured = some hastyFailure ∧
      (Machine.new hastySetup).LateRefusal hastyMoves hastyRefusal := by
  have hrun : ((Machine.new hastySetup).run hastyMoves).map (·.cell.captured) =
      some (some hastyFailure) := by decide +kernel
  have hreturned : ((Machine.new hastySetup).exchanges hastyMoves).any
      (fun x => x.2.failure? = some hastyRefusal) = true := by decide +kernel
  obtain ⟨m, hrun, hcell⟩ := Option.map_eq_some_iff.mp hrun
  obtain ⟨⟨c, r⟩, hmem, hr⟩ := List.any_eq_true.mp hreturned
  obtain ⟨-, hsource, -⟩ := one_failure_iff_no_late_refusal hrun
  refine ⟨m, hrun, hcell, ?_⟩
  rcases hsource c r hastyRefusal hmem (by simpa using hr) with hcap | ⟨hlate, -⟩
  · rw [hcell] at hcap
    exact absurd hcap (by decide)
  · exact hlate

/-- One bundle can return two failures. -/
theorem bundle_with_two_failures :
    ∃ m, (Machine.new hastySetup).run hastyMoves = some m ∧
      m.replies = [.answer (.ok ()), .answer (.error hastyRefusal.toError),
        .answer (.error hastyFailure.toError)] ∧
      m.cell.captured = some hastyFailure ∧ hastyRefusal.same hastyFailure = false := by
  have hrun : ((Machine.new hastySetup).run hastyMoves).map
      (fun m => (m.replies, m.cell.captured)) =
        some ([.answer (.ok ()), .answer (.error hastyRefusal.toError),
          .answer (.error hastyFailure.toError)], some hastyFailure) := by decide +kernel
  obtain ⟨m, hrun, hm⟩ := Option.map_eq_some_iff.mp hrun
  obtain ⟨hreplies, hcell⟩ := Prod.mk.inj hm
  exact ⟨m, hrun, hreplies, hcell, by decide⟩

end Machine

end WorkBundle
