import WorkBundle.Proofs.Answers
import WorkBundle.Proofs.Hooks

/-!
# What becomes of an error that is raised

The code of a bundle raises errors at three kinds of places: in the start hook, while an item is
handled, and in the finish hook (`Place`, `Machine.Raises`). The error of an item is captured as it
is, and shown as it is. The error of a hook is quoted in the message of the error that the call is
answered with, and that error leads on to nothing: what was below the error of the hook is not told
to anybody (`ExecutionError.Keeps`).

For each place there is a step lemma, what the step that raises the error leaves behind, and a run
lemma. What a hook has raised is the last reply of the engine, what an item has raised is with its
worker until it is recorded; from `WorkBundle.Proofs.Answers` it follows what the bundle answers.
-/

set_option autoImplicit false

namespace WorkBundle

variable {α : Type}

/-- Where the code of a bundle can raise an error. What is told of the error depends on it, as
`Place.told` says. -/
inductive Place where
  | hook (hook : Hook)
  | item (number : Nat)
  deriving DecidableEq, Repr

/-- What is told of the errors below an error that is raised at this place: nothing for a hook,
since its error shows its cause as text and has no `source`. -/
def Place.told (c : Cause) : Place → List String
  | .hook _ => []
  | .item _ => c.sources

/-- The message of the error ends with that of the cause, and the errors below it end with those
below the cause. A reader of the error then loses nothing of the cause. -/
def ExecutionError.Keeps (e : ExecutionError) (c : Cause) : Prop :=
  (∃ before, e.message = before ++ c.message) ∧ c.sources <:+ e.sources

/-- The error that a bundle answers with on account of an error raised at this place: the `hook`
error, or the failure of the item. -/
def Setup.AnswersWith (s : Setup α) (c : Cause) (e : ExecutionError) : Place → Prop
  | .hook hook => e = .hook s.processor.name hook.name c
  | .item n => ∃ identity, e = .workItem n identity c

/-! ## What the answers keep -/

namespace Setup.AnswersWith

variable {s : Setup α} {c : Cause} {e : ExecutionError} {place : Place}

theorem shows (h : s.AnswersWith c e place) :
    (∃ before, e.message = before ++ c.message) ∧ e.sources = place.told c := by
  cases place with
  | hook hook =>
    obtain rfl : e = .hook s.processor.name hook.name c := h
    exact ⟨⟨_, rfl⟩, rfl⟩
  | item n =>
    obtain ⟨identity, rfl⟩ := h
    exact ⟨⟨"", (String.empty_append (s := c.message)).symm⟩, rfl⟩

theorem keeps_iff (h : s.AnswersWith c e place) :
    e.Keeps c ↔ ∀ hook, place = .hook hook → c.sources = [] := by
  obtain ⟨hquotes, hsources⟩ := h.shows
  rw [ExecutionError.Keeps, and_iff_right hquotes, hsources]
  cases place with
  | hook hook => exact List.suffix_nil.trans ⟨fun hnil _ _ => hnil, fun hall => hall hook rfl⟩
  | item n => exact iff_of_true List.suffix_rfl nofun

end Setup.AnswersWith

namespace Machine

/-! ## The step that raises an error -/

/-- This move ends the code at this place with this error: it is the step in which `act` is over
with the outcome `failed`. -/
inductive Raises (m : Machine α) (move : Move α) : Place → Cause → Prop
  | hook {hook : Hook} {a : Activity α} {m₁ : Machine α} {cause : Cause} (own : move = .producer)
      (phase : m.producer.hook? = some (hook, a))
      (act : m.act (.hook hook) a = (m₁, .over (.failed cause))) : Raises m move (.hook hook) cause
  | item {n : Nat} {w : Worker α} {a : Activity α} {m₁ : Machine α} {cause : Cause}
      (own : move = .worker n) (worker : m.workers[n]? = some w) (phase : w.phase = .working a)
      (act : m.act (.worker n w.item) a = (m₁, .over (.failed cause))) :
      Raises m move (.item n) cause

variable {m m' : Machine α} {move : Move α} {hook : Hook} {cause : Cause} {n : Nat}

theorem ofEngine_raises (place : Place) (cause : Cause) :
    Run.OfEngine fun (m : Machine α) move => m.Raises move place cause := by
  intro m move h
  cases h with
  | hook own phase =>
    rw [own]
    refine ⟨rfl, fun idle => ?_⟩
    rw [idle] at phase
    cases phase
  | item own =>
    rw [own]
    exact ⟨rfl, fun _ => nofun⟩

/-! ## Errors of hooks -/

theorem hookReply_blames_self (s : Setup α) (hook : Hook) (cause : Cause) :
    (s.hookReply hook (.failed cause)).Blames hook := ⟨_, _, rfl⟩

theorem hookReply_eq_failed {s : Setup α} {outcome : Outcome}
    (h : s.hookReply hook outcome = s.hookReply hook (.failed cause)) :
    outcome = .failed cause := by
  cases outcome with
  | failed =>
    cases h
    rfl
  | returned | panicked => cases h

/-- A hook `Raises` an error just when its call is answered with it, in the same step. -/
theorem raises_hook_iff (ht : Transition m move m') :
    m.Raises move (.hook hook) cause ↔
      m'.replies = m.replies ++ [m.setup.hookReply hook (.failed cause)] := by
  constructor
  · intro h
    cases h with
    | hook own phase hact =>
      subst own
      cases ht with
      | producer hstep =>
        obtain ⟨m₂, p, hact', hgoes, -⟩ := hookGoes_of_producer hstep phase
        cases hact.symm.trans hact'
        exact hgoes.2
      | world world => cases world
  · intro replies
    cases callStep ht with
    | goesOn same =>
      rw [same] at replies
      exact absurd replies (by simp)
    | ends ends _ _ how own =>
      obtain rfl := List.singleton_inj.mp (List.append_cancel_left (ends.symm.trans replies))
      obtain ⟨a, phase⟩ := how.blames (hookReply_blames_self m.setup hook cause)
      have hbusy : m.producer ≠ .idle := by
        intro idle
        rw [idle] at phase
        cases phase
      obtain rfl := own.resolve_right hbusy
      cases ht with
      | world world => cases world
      | producer hstep =>
        obtain ⟨m₁, p, hact, hgoes, -⟩ := hookGoes_of_producer hstep phase
        cases p with
        | going =>
          rw [hgoes.2] at replies
          exact absurd replies (by simp)
        | «over» outcome =>
          have hreply := hgoes.2.symm.trans replies
          have houtcome :=
            hookReply_eq_failed (List.singleton_inj.mp (List.append_cancel_left hreply))
          rw [houtcome] at hact
          exact .hook rfl phase hact

theorem mem_replies_iff (ht : Transition m move m') :
    m.setup.hookReply hook (.failed cause) ∈ m'.replies ↔
      m.setup.hookReply hook (.failed cause) ∈ m.replies ∨ m.Raises move (.hook hook) cause := by
  cases callStep ht with
  | goesOn replies =>
    have hnot : ¬ m.Raises move (.hook hook) cause := fun h => by
      have hreplies := (raises_hook_iff ht).mp h
      rw [replies] at hreplies
      exact absurd hreplies (by simp)
    rw [replies, or_iff_left hnot]
  | ends replies =>
    rw [raises_hook_iff ht, replies, List.mem_append, List.mem_singleton,
      List.append_cancel_left_eq, List.singleton_inj, eq_comm]

section

variable {setup : Setup α} {scope : Scope} {moves : List (Move α)}

theorem answered_iff_raised (hrun : (Machine.new setup scope).run moves = some m) :
    setup.hookReply hook (.failed cause) ∈ m.replies ↔
      (Machine.new setup scope).Happens moves fun m move => m.Raises move (.hook hook) cause := by
  refine run_induction (Q := fun moves m => setup.hookReply hook (.failed cause) ∈ m.replies ↔
    (Machine.new setup scope).Happens moves fun m move => m.Raises move (.hook hook) cause)
    ?_ ?_ hrun
  · exact iff_of_false nofun (not_happens_nil _ _)
  · intro moves m m' move hrun ih hstep
    rw [happens_concat hrun, ← ih, ← setup_run hrun]
    exact mem_replies_iff (transition_of_step hstep)

/-! ## Errors of items -/

/-- The code of this item has ended with this error. It is told by `fate?`, which a worker has
before the cell or the log knows. -/
def HasFailed (m : Machine α) (n : Nat) (cause : Cause) : Prop :=
  ∃ w f, m.workers[n]? = some w ∧ w.phase.fate? = some (.failed f) ∧ f.item = n ∧ f.cause = cause

theorem HasFailed.step (h : m.HasFailed n cause) (ht : Transition m move m') :
    m'.HasFailed n cause := by
  obtain ⟨w, f, hw, hfate, hf⟩ := h
  obtain ⟨w', hw', -, hfate'⟩ := worker_step PhaseStep.fate_eq ht hw hfate
  exact ⟨w', f, hw', hfate', hf⟩

theorem hasFailed_of_raises (ht : Transition m move m') (h : m.Raises move (.item n) cause) :
    m'.HasFailed n cause := by
  cases h with
  | @item _ w a m₁ _ own worker phase hact =>
    subst own
    cases ht with
    | world world => cases world
    | @worker _ w' _ worker' hstep =>
      cases worker.symm.trans worker'
      cases hstep with
      | finish phase' _ hact' =>
        cases phase.symm.trans phase'
        cases hact.symm.trans hact'
        have hw : (m₁.workEnded n (.failed cause)).workers[n]? =
            some { w with phase := (Outcome.failed cause).phase n m₁.minted } := by
          rw [finish_workers hact]
          exact setPhase_self worker _
        exact ⟨_, _, hw, rfl, rfl, rfl⟩
      | goOn phase' _ hact' =>
        cases phase.symm.trans phase'
        cases hact.symm.trans hact'
      | begin phase' | offer phase' | count phase' | leave phase' | close phase' =>
        cases phase.symm.trans phase'

theorem hasFailed_of_raised (hrun : (Machine.new setup scope).run moves = some m)
    (h : (Machine.new setup scope).Happens moves fun m move => m.Raises move (.item n) cause) :
    m.HasFailed n cause := by
  revert h
  refine run_induction (Q := fun moves m => (Machine.new setup scope).Happens moves
    (fun m move => m.Raises move (.item n) cause) → m.HasFailed n cause) ?_ ?_ hrun
  · exact fun h => absurd h (not_happens_nil _ _)
  · intro moves m m' move hrun ih hstep h
    have ht := transition_of_step hstep
    rcases (happens_concat hrun).mp h with hold | hnew
    · exact (ih hold).step ht
    · exact hasFailed_of_raises ht hnew

theorem HasFailed.captured (h : m.HasFailed n cause) (ha : m.Accounted) (hq : m.Quiet) :
    m.cell.captured.isSome := by
  obtain ⟨w, f, hw, hfate, -⟩ := h
  obtain ⟨e, hending, -⟩ := ending_of_inFlight_zero hq.empty hw
  cases (WorkerPhase.fate?_of_ending? hending).symm.trans hfate
  have hrecorded := recorded_of_ending ha hw hending
  exact (captured_of_recorded hrecorded nofun).resolve_left nofun

/-- A failure that `Arises` is made of an error that the code of its item has raised, or it tells of
the loss of its task, or of a refusal of the backend. -/
theorem origin_of_arisen {f : Failure}
    (h : (Machine.new setup scope).Happens moves fun m move => m.Arises move f) :
    (Machine.new setup scope).Happens moves (fun m move => m.Raises move (.item f.item) f.cause) ∨
      f.cause = .lost f.item ∨ f.cause = .execution (.backend f.item setup.backend.reason) := by
  obtain ⟨before, move, after, m₁, hsplit, hrun₁, -, hmishap⟩ := h
  generalize hcause : f.cause = cause at hmishap
  cases hmishap with
  | failed own worker phase act =>
    exact Or.inl ⟨before, move, after, m₁, hsplit, hrun₁, .item own worker phase act⟩
  | panicked | dropped => exact Or.inr (Or.inl rfl)
  | refused =>
    rw [setup_run hrun₁]
    exact Or.inr (Or.inr rfl)

end

end Machine

namespace Run

section

variable {setup : Setup α} {scope : Scope} {items : List (WorkItem α)} {moves : List (Move α)}
  {r : Run α} {reply : Reply} {hook : Hook} {cause : Cause} {n : Nat}

theorem raised_in_machine (hrun : (Run.bundle (.new setup scope) items).follow moves = some r) :
    ∃ expanded, (Machine.new setup scope).run expanded = some r.machine ∧ ∀ place cause,
      (Run.bundle (.new setup scope) items).Happens moves
          (fun m move => m.Raises move place cause) ↔
        (Machine.new setup scope).Happens expanded fun m move => m.Raises move place cause := by
  obtain ⟨expanded, hexp, hhappens⟩ := happens_machine hrun
  exact ⟨expanded, hexp, fun place cause => hhappens _ (Machine.ofEngine_raises place cause)⟩

theorem raised_by_hook_iff (hinner : ∀ move ∈ moves, move.isInner = true)
    (hrun : (Run.bundle (.new setup scope) items).follow moves = some r)
    (hresult : r.result? = some reply) :
    (Run.bundle (.new setup scope) items).Happens moves
        (fun m move => m.Raises move (.hook hook) cause) ↔
      reply = .answer (.error (.hook setup.processor.name hook.name cause)) := by
  obtain ⟨-, hblames⟩ := ((Answering.bundle setup scope items).run hinner hrun).answer hresult
  obtain ⟨expanded, hexp, hraised⟩ := raised_in_machine hrun
  rw [hraised, ← Machine.answered_iff_raised hexp,
    hblames _ hook (Machine.hookReply_blames_self setup hook cause), eq_comm]
  rfl

/-- Where the code of an item `Raises` an error, the bundle answers with a failure, though it may be
that of another item. -/
theorem failure_of_raised_by_item (hinner : ∀ move ∈ moves, move.isInner = true)
    (hrun : (Run.bundle (.new setup scope) items).follow moves = some r)
    (hresult : r.result? = some reply)
    (h : (Run.bundle (.new setup scope) items).Happens moves
      fun m move => m.Raises move (.item n) cause) : ∃ f, reply.failure? = some f := by
  have hanswering := (Answering.bundle setup scope items).run hinner hrun
  obtain ⟨expanded, hexp, hraised⟩ := raised_in_machine hrun
  have hfailed := Machine.hasFailed_of_raised hexp ((hraised _ _).mp h)
  have hquiet := hanswering.sound.quiet (plan_of_result? hresult)
  exact (hanswering.answer hresult).1 (hfailed.captured (Machine.accounted_run hexp) hquiet)

theorem origin_of_failure (hinner : ∀ move ∈ moves, move.isInner = true)
    (hrun : (Run.bundle (.new setup scope) items).follow moves = some r)
    (hresult : r.result? = some reply) {f : Failure} (hf : reply.failure? = some f) :
    (Run.bundle (.new setup scope) items).Happens moves
        (fun m move => m.Raises move (.item f.item) f.cause) ∨
      f.cause = .lost f.item ∨ f.cause = .execution (.backend f.item setup.backend.reason) := by
  obtain ⟨expanded, hexp, hraised⟩ := raised_in_machine hrun
  have hmem := ((Placed.bundle setup scope items).run hinner hrun).quoted hresult hf
  rw [hraised]
  exact Machine.origin_of_arisen (Machine.explained_of_reply hexp hmem hf).2

end

/-- **What becomes of an error that is raised.** Whatever the backend does, when a whole bundle has
its answer: a hook has raised an error just if the answer is the error of that hook, on account of
this one. Its chain is the one message that quotes the message of the error that was raised. If the
code of an item has raised an error, the answer is a failure; and a failure in the answer is made of
an error that the code of its item has raised, unless it tells of a task that was lost or of an item
that was refused. Its chain is that of the error.

So each answer keeps the message of the error it is given on account of, and it keeps what is below
that error, just if no hook has raised an error with another one below it. -/
theorem answers_keep_sources_iff {setup : Setup α} {scope : Scope} {items : List (WorkItem α)}
    {moves : List (Move α)} {r : Run α} {reply : Reply}
    (hinner : ∀ move ∈ moves, move.isInner = true)
    (hrun : (Run.bundle (.new setup scope) items).follow moves = some r)
    (hresult : r.result? = some reply) :
    let raised place cause := (Run.bundle (.new setup scope) items).Happens moves fun m move =>
      m.Raises move place cause
    (∀ hook cause, raised (.hook hook) cause ↔
      reply = .answer (.error (.hook setup.processor.name hook.name cause))) ∧
    (∀ n cause, raised (.item n) cause → ∃ f, reply.failure? = some f) ∧
    (∀ f, reply.failure? = some f → raised (.item f.item) f.cause ∨ f.cause = .lost f.item ∨
      f.cause = .execution (.backend f.item setup.backend.reason)) ∧
    (∀ place cause e, setup.AnswersWith cause e place →
      (∃ before, e.message = before ++ cause.message) ∧ e.sources = place.told cause) ∧
    ((∀ place cause e, raised place cause → reply = .answer (.error e) →
        setup.AnswersWith cause e place → e.Keeps cause) ↔
      ∀ hook cause, raised (.hook hook) cause → cause.sources = []) := by
  intro raised
  have hhook (hook : Hook) (cause : Cause) : raised (.hook hook) cause ↔
      reply = .answer (.error (.hook setup.processor.name hook.name cause)) :=
    raised_by_hook_iff hinner hrun hresult
  refine ⟨hhook, fun n cause h => failure_of_raised_by_item hinner hrun hresult h,
    fun f hf => origin_of_failure hinner hrun hresult hf, fun place cause e h => h.shows, ?_⟩
  constructor
  · intro hkeeps hook cause h
    have hanswer : setup.AnswersWith cause (.hook setup.processor.name hook.name cause)
        (.hook hook) := rfl
    have hkept := hkeeps _ _ _ h ((hhook hook cause).mp h) hanswer
    exact hanswer.keeps_iff.mp hkept hook rfl
  · intro hnil place cause e h _ hanswer
    refine hanswer.keeps_iff.mpr fun hook hplace => ?_
    subst hplace
    exact hnil hook cause h

def deepCause : Cause := .user "boom" ["inner"]

def frankSetup : Setup Nat := { processor := { name := "frank" } }

/-- The one element of a bundle fails, and the bundle ends. -/
def frankMoves : List (Move Nat) :=
  List.replicate 8 .producer ++ List.replicate 4 (.worker 0) ++ List.replicate 3 .producer

theorem answers_keep_sources_iff_frank :
    ∃ r e, (Run.bundle (.new frankSetup) [{ value := 7, script := [.fail deepCause] }]).follow
        frankMoves = some r ∧
      r.result? = some (.answer (.error e)) ∧
      (Run.bundle (.new frankSetup) [{ value := 7, script := [.fail deepCause] }]).Happens
        frankMoves (fun m move => m.Raises move (.item 0) deepCause) ∧
      e.Keeps deepCause := by
  have hresult : ((Run.bundle (.new frankSetup)
      [{ value := 7, script := [.fail deepCause] }]).follow frankMoves).map (·.result?) =
        some (some (.answer (.error (.workItem 0 0 deepCause)))) := by decide +kernel
  obtain ⟨r, hrun, hr⟩ := Option.map_eq_some_iff.mp hresult
  have hinner : ∀ move ∈ frankMoves, move.isInner = true := by
    intro move hmem
    simp only [frankMoves, List.mem_append, List.mem_replicate] at hmem
    rcases hmem with (⟨-, rfl⟩ | ⟨-, rfl⟩) | ⟨-, rfl⟩
    all_goals rfl
  obtain ⟨hhook, -, horigin, -, hiff⟩ := answers_keep_sources_iff hinner hrun hr
  have hraised := (horigin ⟨0, 0, deepCause⟩ rfl).resolve_right (by decide)
  refine ⟨r, _, hrun, hr, hraised, ?_⟩
  have hkeeps := hiff.mpr fun hook cause h => by cases (hhook hook cause).mp h
  exact hkeeps (.item 0) deepCause _ hraised rfl ⟨0, rfl⟩

/-- An engine whose processor fails when the bundle starts. -/
def bluntSetup : Setup Nat :=
  { frankSetup with processor := { name := "blunt", startHook := [.fail deepCause] } }

/-- The error of a hook is answered with, but not what is below it. -/
theorem hook_loses_sources :
    ∃ r e, (Run.bundle (.new bluntSetup) []).follow (List.replicate 3 .producer) = some r ∧
      r.result? = some (.answer (.error e)) ∧
      (Run.bundle (.new bluntSetup) []).Happens (List.replicate 3 .producer)
        (fun m move => m.Raises move (.hook .start) deepCause) ∧
      bluntSetup.AnswersWith deepCause e (.hook .start) ∧
      deepCause.chain = ["boom", "inner"] ∧
      e.chain = ["Processor 'blunt' start_bundle hook failed: boom"] ∧ ¬ e.Keeps deepCause := by
  have hresult : ((Run.bundle (.new bluntSetup) []).follow (List.replicate 3 .producer)).map
      (·.result?) = some (some (.answer (.error (.hook "blunt" "start_bundle" deepCause)))) := by
    decide +kernel
  obtain ⟨r, hrun, hr⟩ := Option.map_eq_some_iff.mp hresult
  refine ⟨r, _, hrun, hr, ?_, rfl, rfl, by decide +kernel, ?_⟩
  -- The first move makes the call, the second one runs the hook.
  · exact ⟨[.producer], .producer, [.producer], _, rfl, rfl, .hook rfl rfl rfl⟩
  · rintro ⟨-, hsources⟩
    exact absurd (List.suffix_nil.mp hsources) (by decide)

end Run

end WorkBundle
