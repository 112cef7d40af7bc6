import WorkBundle.Proofs.Plan
import WorkBundle.Proofs.Senders

/-!
# Which items a bundle submits

The producer submits the items one after the other and stops at the first error. So the items that
the backend has accepted are a first part of all, whatever ends the bundle: `Fed` holds while they
are submitted, and `Handed` once no more are. If the answer is a success, or the error of the
finish hook, all were accepted; if it is the error of the start hook, none were (`Run.Submitted`).
-/

set_option autoImplicit false

namespace WorkBundle

variable {α : Type}

/-- The reply is the error of this hook. -/
def Reply.Blames (reply : Reply) (hook : Hook) : Prop :=
  ∃ name cause, reply = .answer (.error (.hook name hook.name cause))

theorem Reply.not_blames_panic (hook : Hook) : ¬ Reply.panic.Blames hook := by
  rintro ⟨name, cause, heq⟩
  cases heq

namespace Machine

variable {m m' : Machine α} {move : Move α} {reply : Reply}

/-- The call that was made last has succeeded. `Run.proceed` decides by this alone whether to submit
the next item. -/
def Succeeded (m : Machine α) : Prop := m.replies.getLast? = some (.answer (.ok ()))

/-! ## Who is blamed -/

theorem hookReply_blames {hook hook' : Hook} {outcome : Outcome}
    (h : (m.setup.hookReply hook outcome).Blames hook') : hook' = hook := by
  obtain ⟨name, cause, heq⟩ := h
  cases outcome with
  | failed c =>
    simp only [Setup.hookReply, Reply.answer.injEq, Except.error.injEq,
      ExecutionError.hook.injEq] at heq
    cases hook <;> cases hook' <;> first | rfl | exact absurd heq.2.1 (by decide)
  | returned | panicked => cases heq

theorem CallEnd.blames (h : CallEnd m m' reply) {hook : Hook} (hb : reply.Blames hook) :
    ∃ a, m.producer.hook? = some (hook, a) := by
  cases h with
  | @startHook a outcome phase =>
    obtain rfl := hookReply_blames hb
    exact ⟨a, by rw [phase]; rfl⟩
  | @finishHook a outcome phase =>
    obtain rfl := hookReply_blames hb
    exact ⟨a, by rw [phase]; rfl⟩
  | _ =>
    obtain ⟨_, _, heq⟩ := hb
    cases heq

/-! ## Submissions -/

/-- `done` were accepted before, and `item` is being submitted, or its submission was the last call.
In contrast to `Feeds` it speaks of items that the backend keeps, so it needs a backend that
`IsFaithful`. -/
structure Fed (m : Machine α) (done : List (WorkItem α)) (item : WorkItem α) : Prop where
  kept : ∀ n, n < done.length → m.verdict n = .run
  last : m.items = done ∧ m.producer.handed? = none ∧ ¬ (m.producer = .idle ∧ m.Succeeded) ∨
    m.items = done ++ [item] ∧ (m.producer.handed? = some done.length ∨
      m.producer = .idle ∧ (m.Succeeded → m.verdict done.length = .run))

/-- A submission that ends has just handed its item over, or it has not changed what was handed
over; and it succeeds only if its item was accepted, which is to say that its `verdict` is `run`. -/
theorem CallEnd.accepts (h : CallEnd m m' reply) (hfaithful : m.setup.backend.IsFaithful)
    (hstage : m.producer.stage? = some .started ∨ m.producer = .idle) :
    (∃ item, m.producer = .handing item ∧ m'.items = m.items ++ [item] ∧
      m.verdict m.dispatched = .run) ∨
    (∀ item, m.producer ≠ .handing item) ∧
      (reply = .answer (.ok ()) → ∃ n, m.producer.handed? = some n ∧ m.verdict n = .run) := by
  have hother {p : Phase α} (phase : m.producer = p) (hp : p.stage? = some .created ∨
      p.stage? = some .finished) : False := by
    subst phase
    rcases hstage with hs | hs
    · rw [hs] at hp
      rcases hp with hp | hp <;> cases hp
    · rw [hs] at hp
      rcases hp with hp | hp <;> cases hp
  cases h with
  | left phase items kept => exact Or.inl ⟨_, phase, items, kept⟩
  | @taken n phase kept =>
    have hrun : m.verdict n = .run := by
      rcases hfaithful n with hrun | ⟨hrefuse, -⟩
      · exact hrun
      · exact absurd hrefuse kept
    rcases phase with phase | phase
    all_goals
      rw [phase]
      exact Or.inr ⟨nofun, fun _ => ⟨n, rfl, hrun⟩⟩
  | startHook phase => exact (hother phase (Or.inl rfl)).elim
  | finishHook phase => exact (hother phase (Or.inr rfl)).elim
  | violation phase | tooLate phase | refused phase | outdone phase | failed phase =>
    rw [phase]
    exact Or.inr ⟨nofun, nofun⟩
  | cancelled _ phase =>
    rcases phase with ⟨item, phase⟩ | phase
    all_goals
      rw [phase]
      exact Or.inr ⟨nofun, nofun⟩

theorem Fed.step {done : List (WorkItem α)} {item : WorkItem α} (h : m.Fed done item)
    (ht : Transition m move m') (hinner : move.isInner = true)
    (hfaithful : m.setup.backend.IsFaithful) (hord : m.Orderly (some (.submit item)))
    (hstage : m.producer.stage? = some .started ∨ m.producer = .idle) : m'.Fed done item := by
  have hverdict (k : Nat) : m'.verdict k = m.verdict k := by
    rw [verdict, (cellStep ht).2.setup]
    rfl
  refine ⟨fun n hn => (hverdict n).trans (h.kept n hn), ?_⟩
  rw [hverdict]
  -- The item in a submission that is about to hand it over is the one the call is about.
  have hitem {item' : WorkItem α} (hp : m.producer = .handing item') :
      item' = item ∧ m.items = done ∧ m.dispatched = done.length := by
    have hserves := hord.serves
    rw [hp] at hserves
    cases hserves
    rcases h.last with ⟨hitems, -, -⟩ | ⟨-, hhanded | ⟨hidle, -⟩⟩
    · refine ⟨rfl, hitems, ?_⟩
      rw [hord.numbered, ← hitems, items, List.length_map]
    · rw [hp] at hhanded
      cases hhanded
    · rw [hp] at hidle
      cases hidle
  cases callStep ht with
  | goesOn replies phase hands =>
    have hidle : m'.producer = .idle → m.producer = .idle := fun hi => by
      have hstage? := (phase hinner).1
      rw [hi] at hstage?
      exact Run.idle_of_stage? hstage?.symm
    have hidle' : m.producer = .idle → m'.producer = .idle := fun hi => by
      have hstage? := (phase hinner).1
      rw [hi] at hstage?
      exact Run.idle_of_stage? hstage?
    have hsucceeded : m'.Succeeded ↔ m.Succeeded := by rw [Succeeded, replies]; rfl
    rcases hands with ⟨hhanded, hitems⟩ | ⟨item', hp, hhanded, hitems⟩
    · rw [hhanded, hitems, hsucceeded]
      rcases h.last with ⟨hdone, hnone, hnot⟩ | ⟨hdone, hlast⟩
      · exact Or.inl ⟨hdone, hnone, fun hboth => hnot ⟨hidle hboth.1, hboth.2⟩⟩
      · exact Or.inr ⟨hdone, hlast.imp_right fun hi => ⟨hidle' hi.1, hi.2⟩⟩
    · obtain ⟨rfl, hdone, hnumber⟩ := hitem hp
      exact Or.inr ⟨by rw [hitems, hdone], Or.inl (by rw [hhanded, hnumber])⟩
  | @ends reply replies idle _ how =>
    have hsucceeded : m'.Succeeded → reply = .answer (.ok ()) := fun hs => by
      rw [Succeeded, replies, List.getLast?_concat] at hs
      exact Option.some.inj hs
    rcases how.accepts hfaithful hstage with ⟨item', hp, hitems, hrun⟩ | ⟨hp, haccepts⟩
    · obtain ⟨rfl, hdone, hnumber⟩ := hitem hp
      exact Or.inr ⟨by rw [hitems, hdone], Or.inr ⟨idle, fun _ => hnumber ▸ hrun⟩⟩
    -- The call ends in a later phase, with success only if the backend keeps the item.
    · rw [items_step ht hp]
      rcases h.last with ⟨hdone, hnone, -⟩ | ⟨hdone, hlast⟩
      · refine Or.inl ⟨hdone, by rw [idle]; rfl, fun hboth => ?_⟩
        obtain ⟨n, hn, -⟩ := haccepts (hsucceeded hboth.2)
        rw [hnone] at hn
        cases hn
      · refine Or.inr ⟨hdone, Or.inr ⟨idle, fun hs => ?_⟩⟩
        obtain ⟨n, hn, hrun⟩ := haccepts (hsucceeded hs)
        rcases hlast with hhanded | ⟨hi, -⟩
        · rw [hhanded] at hn
          cases hn
          exact hrun
        · rw [hi] at hn
          cases hn

/-! ## When no more are submitted -/

/-- The first `k` of all items were accepted; if another one was handed over, it was refused. There
cannot be two, because a bundle stops submitting at the first error. -/
structure Handed (m : Machine α) (all : List (WorkItem α)) (k : Nat) : Prop where
  first : m.items.take k = all.take k
  bound : k ≤ m.items.length
  kept : ∀ n, n < m.items.length → (m.verdict n = .run ↔ n < k)

variable {all rest done : List (WorkItem α)} {item : WorkItem α} {k : Nat}

theorem Handed.same (h : m.Handed all k) (hsetup : m'.setup = m.setup)
    (hitems : m'.items = m.items) : m'.Handed all k := by
  refine ⟨by rw [hitems]; exact h.first, by rw [hitems]; exact h.bound, fun n hn => ?_⟩
  rw [verdict, hsetup]
  exact h.kept n (hitems ▸ hn)

theorem Handed.le (h : m.Handed all k) : k ≤ all.length := by
  have hlength := congrArg List.length h.first
  rw [List.length_take, List.length_take, Nat.min_eq_left h.bound] at hlength
  omega

theorem Handed.zero (hworkers : m.workers = []) : m.Handed all 0 := by
  refine ⟨rfl, Nat.zero_le _, fun n hn => ?_⟩
  rw [items, hworkers] at hn
  exact absurd hn (Nat.not_lt_zero n)

theorem Fed.handed_done (h : m.Fed done item) (hall : all = done ++ item :: rest)
    (hlast : ∀ n, n < m.items.length → done.length ≤ n → m.verdict n ≠ .run) :
    m.Handed all done.length := by
  have hfirst : m.items.take done.length = done ∧ done.length ≤ m.items.length := by
    rcases h.last with ⟨hitems, -⟩ | ⟨hitems, -⟩
    · rw [hitems]
      exact ⟨List.take_length, Nat.le_refl _⟩
    · rw [hitems]
      exact ⟨List.take_left, by simp⟩
  refine ⟨?_, hfirst.2, fun n hn => ⟨fun hrun => ?_, h.kept n⟩⟩
  · rw [hfirst.1, hall, List.take_left]
  · by_contra hge
    exact hlast n hn (by omega) hrun

theorem Fed.handed_last (h : m.Fed done item) (hall : all = done ++ item :: rest)
    (hitems : m.items = done ++ [item]) (hrun : m.verdict done.length = .run) :
    m.Handed all (done.length + 1) := by
  have hall : all = (done ++ [item]) ++ rest := by rw [hall]; simp
  have hlength : (done ++ [item]).length = done.length + 1 := List.length_append
  refine ⟨?_, Nat.le_of_eq (by rw [hitems, hlength]), fun n hn => ⟨fun _ => ?_, fun hlt => ?_⟩⟩
  · rw [hitems, hall, ← hlength, List.take_length, List.take_left]
  · rwa [hitems, hlength] at hn
  · rcases Nat.lt_succ_iff_lt_or_eq.mp hlt with hlt | rfl
    · exact h.kept n hlt
    · exact hrun

theorem Fed.handed (h : m.Fed done item) (hall : all = done ++ item :: rest) :
    ∃ k, m.Handed all k := by
  rcases h.last with ⟨hitems, -⟩ | ⟨hitems, -⟩
  · refine ⟨_, h.handed_done hall fun n hn hge => ?_⟩
    rw [hitems] at hn
    omega
  · by_cases hrun : m.verdict done.length = .run
    · exact ⟨_, h.handed_last hall hitems hrun⟩
    · refine ⟨_, h.handed_done hall fun n hn hge => ?_⟩
      rw [hitems, List.length_append, List.length_singleton] at hn
      obtain rfl : n = done.length := by omega
      exact hrun

theorem Fed.done_of_succeeded (h : m.Fed done item) (hp : m.producer = .idle) (hs : m.Succeeded) :
    m.items = done ++ [item] ∧ m.verdict done.length = .run := by
  rcases h.last with ⟨-, -, hnot⟩ | ⟨hitems, hhanded | ⟨-, hrun⟩⟩
  · exact absurd ⟨hp, hs⟩ hnot
  · rw [hp] at hhanded
    cases hhanded
  · exact ⟨hitems, hrun hs⟩

end Machine

/-! ## Whole bundles -/

def Plan.MayBlame : Plan α → Hook → Prop
  | .opened _, hook => hook = .start
  | .closing _, hook => hook = .finish
  | .none, _ | .over _, _ => True
  | _, _ => False

namespace Run

/-- Which of all items were submitted, at each point of the plan, as `Fed` or `Handed` has it. -/
def Submitted (all : List (WorkItem α)) (m : Machine α) : Plan α → Prop
  | .none => False
  | .opening items | .opened items => items = all
  | .feeding rest =>
    ∃ done item, all = done ++ item :: rest ∧ m.Orderly (some (.submit item)) ∧ m.Fed done item
  | .closing failed =>
    ∃ k, m.Handed all k ∧ (failed = none → k = all.length) ∧
      ∀ e hook, failed = some e → ¬ (Reply.answer (.error e)).Blames hook
  | .over reply =>
    ∃ k, m.Handed all k ∧ (reply = .answer (.ok ()) ∨ reply.Blames .finish → k = all.length) ∧
      (reply.Blames .start → k = 0)

/-- A hook is blamed only while its call was the last one (`Plan.MayBlame`), so that the answer of a
bundle tells which hook has failed. -/
def Blamed (m : Machine α) (plan : Plan α) : Prop :=
  ∀ reply hook, m.replies.getLast? = some reply → reply.Blames hook → plan.MayBlame hook

variable {m m' : Machine α} {move : Move α} {plan : Plan α} {all : List (WorkItem α)}

theorem Blamed.step (h : Blamed m plan) (ht : Machine.Transition m move m')
    (hf : Follows m plan) : Blamed m' plan := by
  intro reply hook hlast hb
  cases Machine.callStep ht with
  | goesOn replies => exact h reply hook (replies ▸ hlast) hb
  | ends replies _ _ how =>
    rw [replies, List.getLast?_concat, Option.some.injEq] at hlast
    subst hlast
    obtain ⟨a, hhook⟩ := how.blames hb
    cases plan with
    | opening =>
      rw [hf.2.1] at hhook
      cases hhook
    | opened =>
      rcases hf.2 with ⟨_, hp⟩ | ⟨hp, -⟩
      all_goals
        rw [hp] at hhook
        cases hhook
      rfl
    | feeding =>
      rcases Phase.of_hook? hhook with ⟨-, hp⟩ | ⟨-, hp⟩
      all_goals
        obtain ⟨-, hphase⟩ := hf
        rw [hp] at hphase
        rcases hphase with hphase | ⟨hphase, -⟩ <;> cases hphase
    | closing =>
      rcases Phase.of_hook? hhook with ⟨-, hp⟩ | ⟨rfl, -⟩
      · obtain ⟨-, hphase | hquiet⟩ := hf
        · rw [hp] at hphase
          cases hphase
        · cases hp.symm.trans hquiet.idle
      · rfl
    | _ => trivial

theorem Submitted.step (h : Submitted all m plan) (ht : Machine.Transition m move m')
    (hinner : move.isInner = true) (hfaithful : m.setup.backend.IsFaithful) (hf : Follows m plan) :
    Submitted all m' plan := by
  have hsetup : m'.setup = m.setup := (Machine.cellStep ht).2.setup
  have hsame (hp : ∀ item, m.producer ≠ .handing item) : m'.items = m.items :=
    Machine.items_step ht hp
  cases plan with
  | none | opening | opened => exact h
  | feeding rest =>
    obtain ⟨done, item, hall, hord, hfed⟩ := h
    refine ⟨done, item, hall, ?_, ?_⟩
    · have hord' := hord.step ht
      rwa [Follows.call?_of_isInner hinner] at hord'
    · exact hfed.step ht hinner hfaithful hord (hf.2.imp_right fun hi => hi.1)
  | closing failed =>
    obtain ⟨k, hhanded, hrest⟩ := h
    refine ⟨k, hhanded.same hsetup (hsame fun item hp => ?_), hrest⟩
    rcases hf.2 with hs | hquiet
    · rw [hp] at hs
      cases hs
    · rw [hquiet.idle] at hp
      cases hp
  | _ =>
    obtain ⟨k, hhanded, hrest⟩ := h
    refine ⟨k, hhanded.same hsetup (hsame fun item hp => ?_), hrest⟩
    rw [hf.idle] at hp
    cases hp

theorem getLast?_of_blames {r : Run α} {hook : Hook} (hb : r.lastReply.Blames hook) :
    r.machine.replies.getLast? = some r.lastReply := by
  obtain ⟨name, cause, heq⟩ := hb
  rw [heq]
  exact getLast?_of_lastReply heq

theorem Blamed.next {r r' : Run α} (h : Blamed r.machine r.plan) (hf : Follows r.machine r.plan)
    (hp : r.machine.producer = .idle) (hn : Next r r') : Blamed r'.machine r'.plan := by
  -- A call that is in order has no reply yet, and nobody is blamed for the last success.
  have hsuccess {items : List (WorkItem α)} {c : Call α} {plan : Plan α}
      (hplan : r.plan = .opened items ∨ r.plan = .feeding items)
      (hlast : r.lastReply = .answer (.ok ()))
      (hcall : (r.machine.beginCall c).replies = r.machine.replies) :
      Blamed (r.machine.beginCall c) plan := by
    intro reply hook hreply ⟨name, cause, hb⟩
    rw [hcall, getLast?_of_lastReply hlast, hb] at hreply
    cases hreply
  cases hn with
  | @start items plan =>
    rw [plan] at hf h
    obtain ⟨hs, -, -⟩ := hf
    intro reply hook hreply hb
    refine (h reply hook ?_ hb).elim
    rw [← hreply, makeCall, Machine.beginCall_start hs]
  | @submit item items plan last =>
    refine hsuccess plan last ?_
    rw [Machine.beginCall_submit (hf.started hp plan last)]
  | finish plan last =>
    refine hsuccess plan last ?_
    rw [Machine.beginCall_finish (hf.started hp plan last)]
  | @stop items e plan last =>
    rw [plan] at hf h
    intro reply hook hreply hb
    refine (h reply hook ?_ hb).elim
    rw [← hreply, makeCall, Machine.beginCall_finish hf.1]
  | unopened | lost | close => exact fun _ _ _ _ => trivial

theorem not_blames_start {r : Run α} {failed : Option ExecutionError} {reply : Reply}
    (h : Submitted all r.machine (.closing failed)) (hb : Blamed r.machine (.closing failed))
    (word : reply = r.lastReply ∧ (failed = none ∨ r.lastReply = .panic) ∨
      ∃ e, failed = some e ∧ reply = .answer (.error e)) : ¬ reply.Blames .start := by
  intro hblames
  rcases word with ⟨rfl, -⟩ | ⟨e, hfailed, rfl⟩
  · cases hb _ _ (getLast?_of_blames hblames) hblames
  · obtain ⟨k, -, -, hsome⟩ := h
    exact hsome e _ hfailed hblames

/-- The next item is submitted when all before it were accepted, so `Submitted` is kept by the calls
of the plan. -/
theorem Submitted.submit {r : Run α} {item : WorkItem α} {items : List (WorkItem α)}
    (h : Submitted all r.machine r.plan) (hf : Follows r.machine r.plan)
    (hp : r.machine.producer = .idle) {current : Option (Call α)}
    (hord : r.machine.Orderly current)
    (plan : r.plan = .opened (item :: items) ∨ r.plan = .feeding (item :: items))
    (last : r.lastReply = .answer (.ok ())) :
    Submitted all (r.machine.beginCall (.submit item)) (.feeding items) := by
  have hstage := hf.started hp plan last
  have hord' : (r.machine.beginCall (.submit item)).Orderly (some (.submit item)) :=
    hord.step (Machine.transition_of_beginCall (.submit item) hp)
  have hadmitting {done : List (WorkItem α)} (hitems : r.machine.items = done)
      (hkept : ∀ n, n < done.length → r.machine.verdict n = .run) :
      (r.machine.beginCall (.submit item)).Fed done item := by
    rw [Machine.beginCall_submit hstage]
    exact ⟨hkept, Or.inl ⟨hitems, rfl, fun hboth => by cases hboth.1⟩⟩
  rcases plan with plan | plan
  · rw [plan] at h hf
    refine ⟨[], item, h.symm, hord', hadmitting ?_ ?_⟩
    · rw [Machine.items, hf.1]
      rfl
    · intro n hn
      exact absurd hn (Nat.not_lt_zero n)
  · rw [plan] at h
    obtain ⟨done, before, hall, -, hfed⟩ := h
    obtain ⟨hitems, hrun⟩ := hfed.done_of_succeeded hp (getLast?_of_lastReply last)
    refine ⟨done ++ [before], item, by rw [hall]; simp, hord', hadmitting hitems fun n hlt => ?_⟩
    rw [List.length_append, List.length_singleton] at hlt
    rcases Nat.lt_succ_iff_lt_or_eq.mp hlt with hlt | rfl
    · exact hfed.kept n hlt
    · exact hrun

theorem Submitted.handed_all {r : Run α} (h : Submitted all r.machine r.plan)
    (hf : Follows r.machine r.plan) (hp : r.machine.producer = .idle)
    (plan : r.plan = .opened [] ∨ r.plan = .feeding [])
    (last : r.lastReply = .answer (.ok ())) : r.machine.Handed all all.length := by
  rcases plan with plan | plan
  · rw [plan] at h hf
    obtain rfl : [] = all := h
    exact .zero hf.1
  · rw [plan] at h
    obtain ⟨done, before, hall, -, hfed⟩ := h
    obtain ⟨hitems, hrun⟩ := hfed.done_of_succeeded hp (getLast?_of_lastReply last)
    have hhanded := hfed.handed_last hall hitems hrun
    rwa [hall, List.length_append, List.length_singleton, ← hall]

theorem Submitted.next {r r' : Run α} (h : Submitted all r.machine r.plan)
    (hb : Blamed r.machine r.plan) (hf : Follows r.machine r.plan)
    (hp : r.machine.producer = .idle) (hord : ∃ current, r.machine.Orderly current)
    (hn : Next r r') : Submitted all r'.machine r'.plan := by
  obtain ⟨current, hord⟩ := hord
  cases hn with
  | start plan =>
    rw [plan] at h
    exact h
  | submit plan last => exact h.submit hf hp hord plan last
  | finish plan last =>
    have hhanded := h.handed_all hf hp plan last
    rw [makeCall, Machine.beginCall_finish (hf.started hp plan last)]
    refine ⟨all.length, hhanded.same rfl rfl, fun _ => rfl, ?_⟩
    intro e hook he
    cases he
  | @stop items e plan last =>
    rw [plan] at h hf hb
    obtain ⟨done, before, hall, -, hfed⟩ := h
    obtain ⟨k, hhanded⟩ := hfed.handed hall
    rw [makeCall, Machine.beginCall_finish hf.1]
    refine ⟨k, hhanded.same rfl rfl, ?_, ?_⟩
    · intro hnone
      cases hnone
    · intro e' hook he hblames
      cases he
      exact hb _ hook (getLast?_of_lastReply last) hblames
  -- The start has not succeeded, so no item was handed over.
  | unopened plan last =>
    rw [plan] at hf hb
    refine ⟨0, .zero hf.1, ?_, fun _ => rfl⟩
    rintro (hok | hblames)
    · exact absurd hok last
    · cases hb _ _ (getLast?_of_blames hblames) hblames
  | lost plan last =>
    rw [plan] at h
    obtain ⟨done, before, hall, -, hfed⟩ := h
    obtain ⟨k, hhanded⟩ := hfed.handed hall
    refine ⟨k, hhanded, ?_, ?_⟩
    · rintro (hok | hblames)
      · cases hok
      · exact absurd hblames (Reply.not_blames_panic .finish)
    · exact fun hblames => absurd hblames (Reply.not_blames_panic .start)
  | close plan word =>
    rw [plan] at h hb
    have hnot := not_blames_start h hb word
    obtain ⟨k, hhanded, hnone, hsome⟩ := h
    refine ⟨k, hhanded, ?_, fun hblames => absurd hblames hnot⟩
    · rcases word with ⟨rfl, hfailed | hpanic⟩ | ⟨e, hfailed, rfl⟩
      · exact fun _ => hnone hfailed
      · rw [hpanic]
        rintro (hok | hblames)
        · cases hok
        · exact absurd hblames (Reply.not_blames_panic .finish)
      · rintro (hok | hblames)
        · cases hok
        · exact absurd hblames (hsome e _ hfailed)

end Run

end WorkBundle
