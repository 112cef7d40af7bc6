import WorkBundle.Proofs.Numbering
import WorkBundle.Proofs.Prefix

/-!
# What a bundle answers with

The producer of a whole bundle keeps to its plan, so not every reply of its engine can become the
answer. The error of a hook ends the bundle: it is the last reply that there is, and it is the
answer (`Run.Spotless`). The error of a submission is a failure, and then the cell is full; so the
finish finds it full as well and runs no hook. Hence a bundle with a full cell answers with a
failure (`Run.Words`).

What happens in a bundle happens in the run that its engine makes with the calls of the plan among
its moves (`Run.happens_machine`), so what is known of all runs of an engine is known of it.
-/

set_option autoImplicit false

namespace WorkBundle

variable {α : Type}

theorem Reply.not_blames_of_failure {reply : Reply} {f : Failure} (h : reply.failure? = some f)
    (hook : Hook) : ¬ reply.Blames hook := by
  rintro ⟨name, cause, rfl⟩
  cases h

/-- The error is a failure, and the cell is full. The two need not agree: a refusal that is
`outdone` is answered with its own failure. -/
def Machine.HasFailure (m : Machine α) (e : ExecutionError) : Prop :=
  (∃ f, e.failure? = some f) ∧ m.cell.captured.isSome

namespace Machine

variable {m m' : Machine α} {move : Move α} {reply : Reply}

theorem HasFailure.step {e : ExecutionError} (h : m.HasFailure e) (ht : Transition m move m') :
    m'.HasFailure e :=
  ⟨h.1, isSome_captured_step ht h.2⟩

theorem hasFailure_of_error {e : ExecutionError} (how : CallEnd m m' (.answer (.error e)))
    (ht : Transition m move m') (hstage : m.producer.stage? = some .started)
    (hopen : m.gate.cancelled = false) (hj : m.Judged m.producer) : m'.HasFailure e := by
  generalize hreply : Reply.answer (.error e) = reply at how
  have hother {p : Phase α} {s : Option Stage} (phase : m.producer = p) (hp : p.stage? = s)
      (hs : s ≠ some .started) : False := by
    rw [phase, hp] at hstage
    exact hs hstage
  cases how with
  | violation phase => exact (hother phase rfl nofun).elim
  | startHook phase | failed phase | finishHook phase => exact (hother phase rfl nofun).elim
  | cancelled cancelled => cases hopen.symm.trans cancelled
  | tooLate _ full =>
    cases hreply
    exact ⟨⟨_, rfl⟩, by rw [captured_step ht full]; rfl⟩
  | left | taken => cases hreply
  | refused _ _ full =>
    cases hreply
    exact ⟨⟨_, rfl⟩, by rw [full]; rfl⟩
  | outdone phase =>
    cases hreply
    rw [phase] at hj
    exact ⟨⟨_, rfl⟩, isSome_captured_step ht hj.2⟩

theorem failure_of_finish (how : CallEnd m m' reply) (ht : Transition m move m')
    (hstage : m.producer.stage? = some .finished) (hopen : m.gate.cancelled = false)
    (htickets : m.TicketsOk) (hempty : m.producer.isFinishing = true → m.cell.captured = none)
    (hfull : m'.cell.captured.isSome) : ∃ f, reply.failure? = some f := by
  have hother {p : Phase α} {s : Option Stage} (phase : m.producer = p) (hp : p.stage? = s)
      (hs : s ≠ some .finished) : False := by
    rw [phase, hp] at hstage
    exact hs hstage
  cases how with
  | violation phase => exact (hother phase rfl nofun).elim
  | startHook phase | tooLate phase | left phase | refused phase | outdone phase =>
    exact (hother phase rfl nofun).elim
  | taken phase =>
    rcases phase with phase | phase
    all_goals exact (hother phase rfl nofun).elim
  | cancelled cancelled => cases hopen.symm.trans cancelled
  | failed => exact ⟨_, rfl⟩
  -- The finish hook runs only while the cell is empty.
  | finishHook phase =>
    have hfinishing : m.producer.isFinishing = true := by rw [phase]; rfl
    rw [captured_still htickets ht (Or.inr hfinishing), hempty hfinishing] at hfull
    cases hfull

theorem busy_of_reply (ht : Transition m move m') (hinner : move.isInner = true)
    (replies : m'.replies = m.replies ++ [reply]) : m.producer ≠ .idle := by
  intro idle
  have hsame := sameCall_of_inner ht hinner (ne_producer_of_idle ht idle)
  rw [hsame.replies] at replies
  exact absurd replies (by simp)

theorem idle_iff_of_stage? (h : m'.producer.stage? = m.producer.stage?) :
    m'.producer = .idle ↔ m.producer = .idle := by
  constructor
  · intro hp
    rw [hp] at h
    exact Run.idle_of_stage? h.symm
  · intro hp
    rw [hp] at h
    exact Run.idle_of_stage? h

end Machine

namespace Run

/-! ## Hooks that are blamed -/

/-- Of the replies none but the last blames a hook, and while a call is in progress none does: a
bundle makes no further call after a hook has failed. With `Blamed` the blame is then found in the
answer itself. -/
structure Spotless (m : Machine α) : Prop where
  earlier : ∀ reply ∈ m.replies.dropLast, ∀ hook, ¬ reply.Blames hook
  busy : m.producer ≠ .idle → ∀ reply ∈ m.replies, ∀ hook, ¬ reply.Blames hook

variable {m m' : Machine α} {move : Move α} {plan : Plan α} {r r' : Run α}

theorem Spotless.step (h : Spotless m) (ht : Machine.Transition m move m')
    (hinner : move.isInner = true) : Spotless m' := by
  cases Machine.callStep ht with
  | goesOn replies phase =>
    have hidle := Machine.idle_iff_of_stage? (phase hinner).1
    refine ⟨by rw [replies]; exact h.earlier, fun busy => ?_⟩
    rw [replies]
    exact h.busy fun idle => busy (hidle.mpr idle)
  | ends replies idle =>
    refine ⟨?_, fun busy => absurd idle busy⟩
    rw [replies, List.dropLast_concat]
    exact h.busy (Machine.busy_of_reply ht hinner replies)

theorem Spotless.last (h : Spotless m) {reply : Reply} {hook : Hook} (hmem : reply ∈ m.replies)
    (hb : reply.Blames hook) : m.replies.getLast? = some reply := by
  rcases List.eq_nil_or_concat m.replies with hnil | ⟨earlier, last, hconcat⟩
  · rw [hnil] at hmem
    cases hmem
  · rw [List.concat_eq_append] at hconcat
    have hearlier := h.earlier
    rw [hconcat, List.dropLast_concat] at hearlier
    rw [hconcat] at hmem ⊢
    rcases List.mem_append.mp hmem with hmem | hmem
    · exact absurd hb (hearlier reply hmem hook)
    · rw [List.mem_singleton.mp hmem, List.getLast?_concat]

theorem Spotless.next (h : Spotless r.machine) (hb : Blamed r.machine r.plan)
    (hf : Follows r.machine r.plan) (hp : r.machine.producer = .idle) (hn : Next r r') :
    Spotless r'.machine := by
  -- A call is made only when the last one has blamed nobody.
  have hcall {c : Call α} (hreplies : (r.machine.beginCall c).replies = r.machine.replies)
      (hlast : ∀ reply hook, r.machine.replies.getLast? = some reply → ¬ reply.Blames hook) :
      Spotless (r.machine.beginCall c) := by
    refine ⟨by rw [hreplies]; exact h.earlier, fun _ reply hmem hook hblames => ?_⟩
    rw [hreplies] at hmem
    exact hlast reply hook (h.last hmem hblames) hblames
  have hsuccess (last : r.lastReply = .answer (.ok ())) (reply : Reply) (hook : Hook)
      (hreply : r.machine.replies.getLast? = some reply) : ¬ reply.Blames hook := by
    rintro ⟨name, cause, rfl⟩
    cases (getLast?_of_lastReply last).symm.trans hreply
  cases hn with
  | start plan =>
    rw [plan] at hf hb
    exact hcall (by rw [Machine.beginCall_start hf.1]) hb
  | @submit item items plan last =>
    have hreplies : (r.machine.beginCall (.submit item)).replies = r.machine.replies := by
      rw [Machine.beginCall_submit (hf.started hp plan last)]
    exact hcall hreplies (hsuccess last)
  | finish plan last =>
    exact hcall (by rw [Machine.beginCall_finish (hf.started hp plan last)]) (hsuccess last)
  | stop plan =>
    rw [plan] at hf hb
    exact hcall (by rw [Machine.beginCall_finish hf.1]) hb
  | unopened | lost | close => exact h

/-! ## Failures that are answered with -/

/-- What the calls were answered with, at each point of the plan. The engine alone does not relate
one reply to another; it is the `Plan` that makes no call after a failed start and one finish after
a failed submission. -/
def Words (m : Machine α) : Plan α → Prop
  | .feeding _ =>
    m.producer = .idle → ∀ e, m.replies.getLast? = some (.answer (.error e)) → m.HasFailure e
  | .closing failed =>
    (∀ e, failed = some e → m.HasFailure e) ∧
      (m.producer = .idle → m.cell.captured.isSome →
        ∃ reply f, m.replies.getLast? = some reply ∧ reply.failure? = some f)
  | .over reply =>
    (m.cell.captured.isSome → ∃ f, reply.failure? = some f) ∧
      ∀ word hook, word.Blames hook → (word ∈ m.replies ↔ word = reply)
  | _ => True

/-- What `Words` needs to know of the engine at each step, taken from the invariants of its runs. -/
structure Grounds (m : Machine α) : Prop where
  tickets : m.TicketsOk
  uncancelled : m.gate.cancelled = false
  judged : m.Judged m.producer
  empty : m.producer.isFinishing = true → m.cell.captured = none

namespace Words

theorem feeding {items : List (WorkItem α)} (h : Words m (.feeding items))
    (hf : Follows m (.feeding items)) (hg : Grounds m) (ht : Machine.Transition m move m')
    (hinner : move.isInner = true) : Words m' (.feeding items) := by
  intro idle' e hlast
  cases Machine.callStep ht with
  | goesOn replies phase =>
    have idle := (Machine.idle_iff_of_stage? (phase hinner).1).mp idle'
    rw [replies] at hlast
    exact (h idle e hlast).step ht
  | ends replies _ _ how =>
    have hbusy := Machine.busy_of_reply ht hinner replies
    rw [replies, List.getLast?_concat, Option.some.injEq] at hlast
    subst hlast
    have hstage := hf.2.resolve_right fun hidle => hbusy hidle.1
    exact Machine.hasFailure_of_error how ht hstage hg.uncancelled hg.judged

theorem closing {failed : Option ExecutionError} (h : Words m (.closing failed))
    (hf : Follows m (.closing failed)) (hg : Grounds m) (ht : Machine.Transition m move m')
    (hinner : move.isInner = true) : Words m' (.closing failed) := by
  refine ⟨fun e he => (h.1 e he).step ht, fun idle' hfull => ?_⟩
  cases Machine.callStep ht with
  | goesOn replies phase =>
    have idle := (Machine.idle_iff_of_stage? (phase hinner).1).mp idle'
    have hquiet : m.Quiet := hf.2.resolve_left fun hs => by rw [idle] at hs; cases hs
    obtain ⟨-, -, -, hcaptured⟩ := hquiet.step ht (Or.inl hf.1)
    rw [replies]
    exact h.2 idle (hcaptured ▸ hfull)
  | ends replies _ _ how =>
    have hbusy := Machine.busy_of_reply ht hinner replies
    have hstage := hf.2.resolve_right fun hquiet => hbusy hquiet.idle
    obtain ⟨f, hreply⟩ :=
      Machine.failure_of_finish how ht hstage hg.uncancelled hg.tickets hg.empty hfull
    exact ⟨_, f, by rw [replies, List.getLast?_concat], hreply⟩

theorem step (h : Words m plan) (hf : Follows m plan) (hg : Grounds m)
    (ht : Machine.Transition m move m') (hinner : move.isInner = true) : Words m' plan := by
  cases plan with
  | none | opening | opened => trivial
  | feeding items => exact feeding h hf hg ht hinner
  | closing failed => exact closing h hf hg ht hinner
  | _ =>
    have hcall := Follows.call?_of_isInner hinner
    obtain ⟨-, -, -, hcaptured⟩ := Machine.Quiet.step hf ht (Or.inr hcall)
    have hproducer := Machine.ne_producer_of_idle ht hf.idle
    have hreplies := (Machine.sameCall_of_inner ht hinner hproducer).replies
    refine ⟨?_, ?_⟩
    · rw [hcaptured]
      exact h.1
    · rw [hreplies]
      exact h.2

theorem last (hs : Spotless r.machine) (hfull : r.machine.cell.captured.isSome →
    ∃ f, r.lastReply.failure? = some f) : Words r.machine (.over r.lastReply) := by
  refine ⟨hfull, fun word hook hblames => ⟨fun hmem => ?_, ?_⟩⟩
  · exact (lastReply_of_getLast? (hs.last hmem hblames)).symm
  · rintro rfl
    exact List.mem_of_getLast? (getLast?_of_blames hblames)

theorem next (h : Words r.machine r.plan) (hs : Spotless r.machine)
    (hf : Follows r.machine r.plan) (hp : r.machine.producer = .idle)
    (hunfilled : r.machine.workers = [] → r.machine.cell.captured = none) (hn : Next r r') :
    Words r'.machine r'.plan := by
  have hbusy {p : Phase α} (idle : p = .idle) (hstage : p.stage?.isSome) : False := by
    rw [idle] at hstage
    cases hstage
  cases hn with
  | start => trivial
  | @submit item items plan last =>
    intro idle
    rw [makeCall, Machine.beginCall_submit (hf.started hp plan last)] at idle
    exact (hbusy idle rfl).elim
  | finish plan last =>
    rw [makeCall, Machine.beginCall_finish (hf.started hp plan last)]
    exact ⟨fun e he => (by cases he), fun idle => (hbusy idle rfl).elim⟩
  | stop plan last =>
    rw [plan] at h hf
    rw [makeCall, Machine.beginCall_finish hf.1]
    refine ⟨fun e he => ?_, fun idle => (hbusy idle rfl).elim⟩
    cases he
    exact h hp _ (getLast?_of_lastReply last)
  -- A bundle that was not opened has no items, so there is nothing that could have failed.
  | unopened plan =>
    rw [plan] at hf
    refine last hs fun hfull => ?_
    rw [hunfilled hf.1] at hfull
    cases hfull
  | lost plan last => exact absurd last (hf.not_lost hp plan)
  | close plan word =>
    rw [plan] at h
    have hlast (hfull : r.machine.cell.captured.isSome) : ∃ f, r.lastReply.failure? = some f := by
      obtain ⟨reply, f, hreply, hfailure⟩ := h.2 hp hfull
      exact ⟨f, by rw [lastReply_of_getLast? hreply, hfailure]⟩
    rcases word with ⟨rfl, -⟩ | ⟨e, rfl, rfl⟩
    · exact last hs hlast
    -- The submission has failed with a failure, so the finish has met the full cell.
    · obtain ⟨⟨f, he⟩, hfull⟩ := h.1 e rfl
      have hanswer : Reply.failure? (.answer (.error e)) = some f := he
      refine ⟨fun _ => ⟨f, hanswer⟩, fun word hook hblames => ⟨fun hmem => ?_, ?_⟩⟩
      · obtain ⟨f', hfailure⟩ := hlast hfull
        rw [lastReply_of_getLast? (hs.last hmem hblames)] at hfailure
        exact absurd hblames (Reply.not_blames_of_failure hfailure hook)
      · rintro rfl
        exact absurd hblames (Reply.not_blames_of_failure hanswer hook)

end Words

/-! ## The whole bundle -/

/-- What is known of the answers of a bundle, kept by every step of `Run.follow`. -/
structure Answering (r : Run α) : Prop where
  sound : r.Sound
  reached : ∃ setup scope moves, (Machine.new setup scope).run moves = some r.machine
  blamed : Blamed r.machine r.plan
  spotless : Spotless r.machine
  words : Words r.machine r.plan

namespace Answering

theorem bundle (setup : Setup α) (scope : Scope) (items : List (WorkItem α)) :
    (Run.bundle (.new setup scope) items).Answering where
  sound := .bundle setup scope items
  reached := ⟨setup, scope, [], rfl⟩
  blamed := fun _ _ hlast _ => by cases hlast
  spotless := ⟨fun _ hmem => (by cases hmem), fun busy => absurd rfl busy⟩
  words := trivial

theorem grounds (h : r.Answering) : Grounds r.machine := by
  obtain ⟨setup, scope, moves, hrun⟩ := h.reached
  exact ⟨h.sound.tickets, h.sound.uncancelled, Machine.judged_run hrun,
    fun hfinishing => ((Machine.drains hrun).hooks.during hfinishing).2⟩

theorem unfilled (h : r.Answering) (hnil : r.machine.workers = []) :
    r.machine.cell.captured = none := by
  obtain ⟨setup, scope, moves, hrun⟩ := h.reached
  cases hcell : r.machine.cell.captured with
  | none => rfl
  | some f =>
    have hlt := ((Machine.explains hrun).carried f (Or.inl hcell)).1
    rw [(Machine.drains hrun).orderly.numbered, hnil] at hlt
    exact absurd hlt (Nat.not_lt_zero _)

theorem step (h : r.Answering) (hinner : move.isInner = true) (hstep : r.step move = some r') :
    r'.Answering := by
  have hfollow : r.follow [move] = some r' := (follow_singleton r move).trans hstep
  have hreached : ∃ setup scope moves, (Machine.new setup scope).run moves = some r'.machine := by
    obtain ⟨setup, scope, moves, hrun⟩ := h.reached
    obtain ⟨expanded, hexp, -⟩ := follow_machine hfollow
    exact ⟨setup, scope, moves ++ expanded, Machine.run_trans hrun hexp⟩
  have hsound := h.sound.step hinner hstep
  rcases step_cases hstep with ⟨-, hp, hproceed⟩ | ⟨m', hm', rfl⟩
  · have hnext := next_of_proceed hproceed
    exact ⟨hsound, hreached, h.blamed.next h.sound.follows hp hnext,
      h.spotless.next h.blamed h.sound.follows hp hnext,
      h.words.next h.spotless h.sound.follows hp h.unfilled hnext⟩
  · have ht := Machine.transition_of_step hm'
    exact ⟨hsound, hreached, h.blamed.step ht h.sound.follows, h.spotless.step ht hinner,
      h.words.step h.sound.follows h.grounds ht hinner⟩

theorem run {moves : List (Move α)} (h : r.Answering) (hmoves : ∀ move ∈ moves, move.isInner = true)
    (hrun : r.follow moves = some r') : r'.Answering :=
  follow_invariant (fun h hmove hstep => h.step hmove hstep) h hmoves hrun

/-- A bundle with a full cell answers with a failure, and a hook that was blamed by any reply is
blamed by the answer. -/
theorem answer (h : r.Answering) {reply : Reply} (hresult : r.result? = some reply) :
    (r.machine.cell.captured.isSome → ∃ f, reply.failure? = some f) ∧
      ∀ word hook, word.Blames hook → (word ∈ r.machine.replies ↔ word = reply) := by
  have hwords := h.words
  rwa [plan_of_result? hresult] at hwords

end Answering

/-! ## What happens in a bundle -/

/-- Somewhere in the run of a bundle a move is made of which this is true, and of the engine before
it. -/
def Happens (r₀ : Run α) (moves : List (Move α)) (P : Machine α → Move α → Prop) : Prop :=
  HappensIn r₀.follow moves fun r move => P r.machine move

/-- It is a step of the engine, and neither a call nor a step of the `Plan`; only such things can be
carried over by `happens_machine`. -/
def OfEngine (P : Machine α → Move α → Prop) : Prop :=
  ∀ m move, P m move → move.call? = none ∧ (m.producer = .idle → move ≠ .producer)

/-- The engine of a bundle makes a run of its own, in which the same `Happens`. Results about
engines hold of bundles by this: the plan adds nothing but calls. -/
theorem happens_machine {r₀ r : Run α} {moves : List (Move α)} (hrun : r₀.follow moves = some r) :
    ∃ expanded, r₀.machine.run expanded = some r.machine ∧
      ∀ P, OfEngine P → (r₀.Happens moves P ↔ r₀.machine.Happens expanded P) := by
  induction moves using List.reverseRecOn generalizing r with
  | nil =>
    cases hrun
    refine ⟨[], rfl, fun P _ => ?_⟩
    exact iff_of_false (not_happensIn_nil _ _) (Machine.not_happens_nil _ P)
  | append_singleton moves move ih =>
    obtain ⟨r₁, h₁, h₂⟩ := follow_concat hrun
    obtain ⟨expanded, hexp, hsame⟩ := ih h₁
    have hconcat (P : Machine α → Move α → Prop) :
        r₀.Happens (moves ++ [move]) P ↔ r₀.Happens moves P ∨ P r₁.machine move :=
      happensIn_concat h₁
    rcases step_cases h₂ with ⟨rfl, hp, hproceed⟩ | ⟨m', hm', rfl⟩
    · have hnot {P : Machine α → Move α → Prop} (hP : OfEngine P) :
          ¬ P r₁.machine .producer := fun h => (hP _ _ h).2 hp rfl
      rcases next_machine (next_of_proceed hproceed) with heq | ⟨c, heq⟩
      · refine ⟨expanded, heq ▸ hexp, fun P hP => ?_⟩
        rw [hconcat, or_iff_left (hnot hP), hsame P hP]
      · have hcall : r₁.machine.step (.call c) = some r.machine := by
          rw [heq, Machine.step_call hp]
        refine ⟨expanded ++ [.call c], ?_, fun P hP => ?_⟩
        · exact Machine.run_trans hexp (by rw [Machine.run_singleton, hcall])
        · have hcalls : ¬ P r₁.machine (.call c) := fun h => by cases (hP _ _ h).1
          rw [hconcat, or_iff_left (hnot hP), hsame P hP, Machine.happens_concat hexp,
            or_iff_left hcalls]
    · refine ⟨expanded ++ [move], ?_, fun P hP => ?_⟩
      · exact Machine.run_trans hexp (by rw [Machine.run_singleton, hm'])
      · rw [hconcat, hsame P hP, Machine.happens_concat hexp]

end Run

end WorkBundle
