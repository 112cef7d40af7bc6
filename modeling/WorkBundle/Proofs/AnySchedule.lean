import WorkBundle.Proofs.Barrier
import WorkBundle.Proofs.Foreseen
import WorkBundle.Proofs.Progress
import WorkBundle.Proofs.Totals

/-!
# The same on any schedule

How a bundle ends does not depend on its schedule, on the number of its tickets, or on its backend,
if that runs every task. The error of the start hook comes first, then a failure of an item, then
the error of the finish hook (`Run.Decided`); of several items that fail, the schedule chooses only
whose failure is the answer. And if no item fails, the aggregators come to the fold of all values
that the items and the hooks have added.
-/

set_option autoImplicit false

namespace WorkBundle

variable {α : Type}

namespace Run

variable {m m' : Machine α} {move : Move α} {all : List (WorkItem α)} {scope : Scope}
  {opened : Bool} {failed : Option ExecutionError} {reply : Reply}

/-- What a hook of this engine comes to, whenever it runs: `SettledCode` makes it a function of the
code and of what the scope offers at the beginning. -/
def hookEffect (m : Machine α) (scope : Scope) (hook : Hook) : Effect α :=
  m.setup.processor.effect m.setup.intake scope hook

def Begun (m : Machine α) (scope : Scope) (opened : Bool) : Prop :=
  m.Foreseen scope opened (hookEffect m scope .start).uses

def Framed (m : Machine α) (scope : Scope) (opened : Bool) : Prop :=
  m.Foreseen scope opened ((hookEffect m scope .start).uses ++ (hookEffect m scope .finish).uses)

/-- How a bundle is finished, where a submission may have failed before. Only the cell decides
between the cases: by `TicketsOk` the drain has let every worker end first. -/
inductive Winds (m : Machine α) (scope : Scope) (opened : Bool) : Prop
  | draining (phase : m.producer = .draining ∨ m.producer = .drained) (begun : Begun m scope opened)
  | finishing {a : Activity α} (phase : m.producer.hook? = some (.finish, a))
      (empty : m.cell.captured = none) (framed : Framed m scope opened)
  | failed {f : Failure} (idle : m.producer = .idle) (full : m.cell.captured = some f)
      (last : m.replies.getLast? = some (.answer (.error f.toError))) (begun : Begun m scope opened)
  | finished (idle : m.producer = .idle) (empty : m.cell.captured = none)
      (last : m.replies.getLast? =
        some (m.setup.hookReply .finish (hookEffect m scope .finish).outcome))
      (framed : Framed m scope opened)

/-- How a bundle is decided, which its reply then tells. There is one constructor for each place of
the code at which a bundle can end. -/
inductive Decided (all : List (WorkItem α)) (m : Machine α) (scope : Scope) (opened : Bool) :
    Reply → Prop
  | unopened (failed : (hookEffect m scope .start).outcome ≠ .returned) (none : m.workers = [])
      (begun : Begun m scope opened) :
      Decided all m scope opened (m.setup.hookReply .start (hookEffect m scope .start).outcome)
  | failed {f : Failure} (started : (hookEffect m scope .start).outcome = .returned)
      (full : m.cell.captured = some f) (begun : Begun m scope opened) :
      Decided all m scope opened (.answer (.error f.toError))
  | finished (started : (hookEffect m scope .start).outcome = .returned)
      (empty : m.cell.captured = none) (every : m.items.length = all.length)
      (framed : Framed m scope opened) :
      Decided all m scope opened (m.setup.hookReply .finish (hookEffect m scope .finish).outcome)

/-- What is decided at each point of the plan. `Begun` and `Framed` say which hooks have used the
aggregators already; the uses of the items are foreseen by `Foreseen` from the start. -/
def Decides (all : List (WorkItem α)) (m : Machine α) (scope : Scope) (opened : Bool) :
    Plan α → Prop
  | .none => False
  | .opening _ => m.Foreseen scope opened []
  | .opened _ =>
    Begun m scope opened ∧ ((∃ a, m.producer.hook? = some (.start, a)) ∨ m.producer = .idle ∧
      m.replies.getLast? = some (m.setup.hookReply .start (hookEffect m scope .start).outcome))
  | .feeding _ =>
    Begun m scope opened ∧ (hookEffect m scope .start).outcome = .returned ∧
      ∀ e, m.producer = .idle → m.replies.getLast? = some (.answer (.error e)) → IsCaptured m e
  | .closing failed =>
    (hookEffect m scope .start).outcome = .returned ∧
      (failed = none → m.items.length = all.length) ∧ (∀ e, failed = some e → IsCaptured m e) ∧
      Winds m scope opened
  | .over reply => Decided all m scope opened reply

theorem foreseen_call {begun : List Use} (hf : m.Foreseen scope opened begun) {p : Phase α}
    {stage : Stage} (hold : m.producer.hook? = none) (hnew : p.hook? = none) :
    ({ m with stage, producer := p } : Machine α).Foreseen scope opened begun :=
  hf.same ⟨hf.supplied.supply, hf.supplied.code⟩ rfl rfl rfl (hnew.trans hold.symm)

theorem foreseen_hook {begun : List Use} (hf : m.Foreseen scope opened begun) {p : Phase α}
    (hook : Hook) (hold : m.producer.hook? = none)
    (hnew : p.hook? = some (hook, { script := m.setup.processor.script hook }))
    (hscript : Script.IsSettled m.setup.intake none scope (m.setup.processor.script hook)) :
    ({ m with producer := p } : Machine α).Foreseen scope opened
      (begun ++ (hookEffect m scope hook).uses) := by
  have hsupplied : ({ m with producer := p } : Machine α).Supplied opened :=
    ⟨hf.supplied.supply, hf.supplied.code⟩
  exact hf.begins hsupplied rfl rfl rfl hold hnew hscript

/-! ## One step -/

/-- The code of all items and of both hooks is settled: items by `IsSettled`, hooks by `Returns`.
Code that asks what another may have created in the meantime is excluded, since its emissions do
depend on the schedule. -/
structure SettledCode (setup : Setup α) (all : List (WorkItem α)) (scope : Scope) (opened : Bool) :
    Prop where
  items : ∀ item ∈ all, item.IsSettled setup.intake scope ∧
    ∀ action ∈ item.script, action.IsSupplied opened
  hooks : ∀ hook, Script.IsSettled setup.intake none scope (setup.processor.script hook)

/-- All code is settled, and the bundle is `Undisturbed` at this point of its plan. -/
structure Even (m : Machine α) (all : List (WorkItem α)) (scope : Scope) (opened : Bool)
    (plan : Plan α) : Prop extends Undisturbed m all plan where
  settled : SettledCode m.setup all scope opened

namespace Even

variable {plan : Plan α} {begun : List Use}

theorem handing (h : Even m all scope opened plan) (item : WorkItem α)
    (hp : m.producer = .handing item) : item.IsSettled m.setup.intake scope ∧
      ∀ action ∈ item.script, action.IsSupplied opened :=
  h.settled.items item (List.mem_of_getElem? (h.submitted.next_item h.follows hp))

theorem foreseen_step (h : Even m all scope opened plan) (hf : m.Foreseen scope opened begun)
    (ht : Machine.Transition m move m') (hmove : move.IsSteady opened)
    (hnot : ¬ m.BeginsFinish m') : m'.Foreseen scope opened begun :=
  hf.step (Machine.codeStep h.judged ht) (Machine.cellStep ht).2.setup hmove h.runs h.handing hnot

theorem hookEffect_congr (hsetup : m'.setup = m.setup) (scope : Scope) :
    hookEffect m' scope = hookEffect m scope := by
  funext hook
  rw [hookEffect, hookEffect, hsetup]

theorem opened_step {items : List (WorkItem α)} (h : Even m all scope opened (.opened items))
    (hd : Decides all m scope opened (.opened items)) (ht : Machine.Transition m move m')
    (hmove : move.IsSteady opened) : Decides all m' scope opened (.opened items) := by
  obtain ⟨hbegun, hphase⟩ := hd
  have heffect := hookEffect_congr (Machine.cellStep ht).2.setup scope
  have hnot : ¬ m.BeginsFinish m' := by
    rintro ⟨hdrained, -⟩
    rw [hdrained] at hphase
    rcases hphase with ⟨a, hhook⟩ | ⟨idle, -⟩
    · cases hhook
    · cases idle
  refine ⟨by rw [Begun, heffect]; exact h.foreseen_step hbegun ht hmove hnot, ?_⟩
  have hnone := inFlight_nil h.follows.1
  rw [heffect, (Machine.cellStep ht).2.setup]
  rcases hphase with ⟨a, hhook⟩ | ⟨idle, hlast⟩
  · obtain ⟨-, p, hcarries, hgoes⟩ := Machine.hook_step ht hmove.inner hnone hhook
    cases p with
    | going a' => exact Or.inl ⟨a', hgoes.1⟩
    | «over» outcome =>
      obtain ⟨idle', hreplies⟩ := hgoes
      refine Or.inr ⟨idle', ?_⟩
      rw [hreplies, List.getLast?_concat, hbegun.outcome_of_over hhook hcarries]
      rfl
  · obtain ⟨hcall, -⟩ := sameWork_of_quiet ⟨idle, hnone⟩ ht hmove.inner
    exact Or.inr ⟨hcall.producer.trans idle, hcall.replies ▸ hlast⟩

theorem feeding_step {items : List (WorkItem α)} (h : Even m all scope opened (.feeding items))
    (hd : Decides all m scope opened (.feeding items)) (ht : Machine.Transition m move m')
    (hmove : move.IsSteady opened) : Decides all m' scope opened (.feeding items) := by
  obtain ⟨hbegun, hstarted, herror⟩ := hd
  have heffect := hookEffect_congr (Machine.cellStep ht).2.setup scope
  have hnot : ¬ m.BeginsFinish m' := by
    rintro ⟨hdrained, -⟩
    have hphase := h.follows.2
    rw [hdrained] at hphase
    rcases hphase with hs | ⟨idle, -⟩
    · cases hs
    · cases idle
  refine ⟨?_, by rw [heffect]; exact hstarted, ?_⟩
  · rw [Begun, heffect]
    exact h.foreseen_step hbegun ht hmove hnot
  · intro e idle' hlast
    exact h.toUndisturbed.error_step ht hmove.inner herror idle' hlast

theorem conclude_winds (h : Even m all scope opened plan) (hbegun : Begun m scope opened)
    (hp : m.producer = .drained) : Winds m.conclude scope opened := by
  cases hcell : m.cell.captured with
  | some f =>
    simp only [Machine.conclude, hcell]
    refine .failed rfl hcell List.getLast?_concat ?_
    exact hbegun.same ⟨hbegun.supplied.supply, hbegun.supplied.code⟩ rfl rfl rfl (by rw [hp]; rfl)
  | none =>
    simp only [Machine.conclude, hcell]
    refine .finishing rfl hcell ?_
    exact foreseen_hook hbegun .finish (by rw [hp]; rfl) rfl (h.settled.hooks .finish)

theorem closing_step (h : Even m all scope opened (.closing failed))
    (hd : Decides all m scope opened (.closing failed)) (ht : Machine.Transition m move m')
    (hmove : move.IsSteady opened) : Decides all m' scope opened (.closing failed) := by
  obtain ⟨hstarted, hall, hcaptured, hwinds⟩ := hd
  have hsetup := (Machine.cellStep ht).2.setup
  have heffect := hookEffect_congr hsetup scope
  have hitems := h.toUndisturbed.items_closing ht
  refine ⟨by rw [heffect]; exact hstarted, fun hnone => hitems ▸ hall hnone,
    fun e he => (hcaptured e he).step ht, ?_⟩
  cases hwinds with
  | draining phase begun =>
    have hstays (hphase : m'.producer = .draining ∨ m'.producer = .drained) :
        Winds m' scope opened := by
      refine .draining hphase ?_
      rw [Begun, heffect]
      refine h.foreseen_step begun ht hmove fun hbegins => ?_
      rw [hbegins.2] at hphase
      rcases hphase with hp | hp <;> cases hp
    by_cases hproducer : move = .producer
    · subst hproducer
      cases ht with
      | producer hstep =>
        rcases Machine.drain_step hstep h.uncancelled phase with ⟨hphase, -⟩ | ⟨hp, rfl⟩
        · exact hstays hphase
        · exact h.conclude_winds begun hp
      | world world => cases world
    · have hcall := Machine.sameCall_of_inner ht hmove.inner hproducer
      exact hstays (hcall.producer.symm ▸ phase)
  | @finishing a phase empty framed =>
    have hnone := h.toUndisturbed.empty_of_finishing phase
    obtain ⟨hsame, p, hcarries, hgoes⟩ := Machine.hook_step ht hmove.inner hnone phase
    have hnot : ¬ m.BeginsFinish m' := fun hbegins => by
      rw [hbegins.1] at phase
      cases phase
    have hframed : Framed m' scope opened := by
      rw [Framed, heffect]
      exact h.foreseen_step framed ht hmove hnot
    cases p with
    | going a' => exact .finishing hgoes.1 (hsame.captured.trans empty) hframed
    | «over» outcome =>
      refine .finished hgoes.1 (hsame.captured.trans empty) ?_ hframed
      rw [hgoes.2, List.getLast?_concat, framed.outcome_of_over phase hcarries, heffect, hsetup]
      rfl
  | failed idle full last begun =>
    obtain ⟨hcall, hwork⟩ := sameWork_of_quiet (h.toUndisturbed.quiet_of_idle idle) ht hmove.inner
    refine .failed (hcall.producer.trans idle) (hwork.captured.trans full) (hcall.replies ▸ last) ?_
    rw [Begun, heffect]
    refine h.foreseen_step begun ht hmove fun hbegins => ?_
    cases idle.symm.trans hbegins.1
  | finished idle empty last framed =>
    obtain ⟨hcall, hwork⟩ := sameWork_of_quiet (h.toUndisturbed.quiet_of_idle idle) ht hmove.inner
    refine .finished (hcall.producer.trans idle) (hwork.captured.trans empty) ?_ ?_
    · rw [heffect, hsetup]
      exact hcall.replies ▸ last
    · rw [Framed, heffect]
      refine h.foreseen_step framed ht hmove fun hbegins => ?_
      cases idle.symm.trans hbegins.1

theorem over_step (h : Even m all scope opened (.over reply))
    (hd : Decided all m scope opened reply) (ht : Machine.Transition m move m')
    (hmove : move.IsSteady opened) :
    Decided all m' scope opened reply := by
  have hsetup := (Machine.cellStep ht).2.setup
  have heffect := hookEffect_congr hsetup scope
  obtain ⟨hcall, hwork⟩ := sameWork_of_quiet h.follows ht hmove.inner
  have hnot : ¬ m.BeginsFinish m' := fun hbegins => by
    cases h.follows.idle.symm.trans hbegins.1
  cases hd with
  | unopened failed none begun =>
    rw [← hsetup, ← heffect]
    refine .unopened (by rwa [heffect]) ?_ ?_
    · exact workers_nil_step ht none (by rw [h.follows.idle]; nofun)
    · rw [Begun, heffect]
      exact h.foreseen_step begun ht hmove hnot
  | failed started full begun =>
    refine .failed (by rwa [heffect]) (hwork.captured.trans full) ?_
    rw [Begun, heffect]
    exact h.foreseen_step begun ht hmove hnot
  | finished started empty every framed =>
    rw [← hsetup, ← heffect]
    refine .finished (by rwa [heffect]) (hwork.captured.trans empty) (hcall.items ▸ every) ?_
    rw [Framed, heffect]
    exact h.foreseen_step framed ht hmove hnot

/-- Whatever moves, the bundle is decided in the same way. The schedule enters in one place only:
which failing worker is captured first, and `Decided` leaves that open. -/
theorem step (h : Even m all scope opened plan) (hd : Decides all m scope opened plan)
    (ht : Machine.Transition m move m') (hmove : move.IsSteady opened) :
    Decides all m' scope opened plan := by
  cases plan with
  | none => exact hd.elim
  | opening items =>
    refine h.foreseen_step hd ht hmove fun hbegins => ?_
    cases h.follows.2.1.symm.trans hbegins.1
  | opened items => exact h.opened_step hd ht hmove
  | feeding items => exact h.feeding_step hd ht hmove
  | closing failed => exact h.closing_step hd ht hmove
  | «over» reply => exact h.over_step hd ht hmove

end Even

/-! ## The plan goes on -/

theorem Decides.begun {r : Run α} {items : List (WorkItem α)}
    (h : Decides all r.machine scope opened r.plan) (hp : r.machine.producer = .idle)
    (plan : r.plan = .opened items ∨ r.plan = .feeding items)
    (last : r.lastReply = .answer (.ok ())) :
    Begun r.machine scope opened ∧ (hookEffect r.machine scope .start).outcome = .returned := by
  rcases plan with plan | plan
  · rw [plan] at h
    obtain ⟨hbegun, ⟨a, hhook⟩ | ⟨-, hlast⟩⟩ := h
    · rw [hp] at hhook
      cases hhook
    · refine ⟨hbegun, ?_⟩
      have hreply := Option.some.inj (hlast.symm.trans (getLast?_of_lastReply last))
      cases ho : (hookEffect r.machine scope .start).outcome with
      | returned => rfl
      | failed | panicked =>
        rw [ho] at hreply
        cases hreply
  · rw [plan] at h
    exact ⟨h.1, h.2.1⟩

theorem Decides.close {r : Run α} {failed : Option ExecutionError} {reply : Reply}
    (h : Decides all r.machine scope opened (.closing failed)) (hp : r.machine.producer = .idle)
    (word : reply = r.lastReply ∧ (failed = none ∨ r.lastReply = .panic) ∨
      ∃ e, failed = some e ∧ reply = .answer (.error e)) :
    Decided all r.machine scope opened reply := by
  obtain ⟨hstarted, hall, hcaptured, hwinds⟩ := h
  cases hwinds with
  | draining phase =>
    rw [hp] at phase
    rcases phase with phase | phase <;> cases phase
  | finishing phase =>
    rw [hp] at phase
    cases phase
  | @failed f _ full hlast begun =>
    have hreply : reply = .answer (.error f.toError) := by
      rcases word with ⟨rfl, -⟩ | ⟨e, hfailed, rfl⟩
      · exact lastReply_of_getLast? hlast
      · obtain ⟨g, hg, rfl⟩ := hcaptured e hfailed
        cases full.symm.trans hg
        rfl
    rw [hreply]
    exact .failed hstarted full begun
  | finished _ empty hlast framed =>
    have hunfailed (e : ExecutionError) : failed ≠ some e := by
      intro hfailed
      obtain ⟨g, hg, -⟩ := hcaptured e hfailed
      cases empty.symm.trans hg
    rcases word with ⟨rfl, -⟩ | ⟨e, hfailed, -⟩
    · rw [lastReply_of_getLast? hlast]
      exact .finished hstarted empty (hall (Option.eq_none_iff_forall_ne_some.mpr hunfailed)) framed
    · exact absurd hfailed (hunfailed e)

theorem Decides.next {r r' : Run α} (h : Decides all r.machine scope opened r.plan)
    (hregular : r.Regular all) (hruns : r.machine.RunsAll)
    (hsettled : SettledCode r.machine.setup all scope opened) (hp : r.machine.producer = .idle)
    (hn : Next r r') : Decides all r'.machine scope opened r'.plan := by
  have hf := hregular.sound.follows
  have hnone : r.machine.producer.hook? = none := by rw [hp]; rfl
  cases hn with
  | start plan =>
    rw [plan] at h hf
    show Decides all (r.machine.beginCall .start) scope opened _
    rw [Machine.beginCall_start hf.1]
    exact ⟨foreseen_hook h .start hnone rfl (hsettled.hooks .start), Or.inl ⟨_, rfl⟩⟩
  | @submit item items plan last =>
    obtain ⟨hbegun, hstarted⟩ := h.begun hp plan last
    show Decides all (r.machine.beginCall (.submit item)) scope opened _
    rw [Machine.beginCall_submit (hf.started hp plan last)]
    exact ⟨foreseen_call hbegun hnone rfl, hstarted, nofun⟩
  | finish plan last =>
    obtain ⟨hbegun, hstarted⟩ := h.begun hp plan last
    have hall := hruns.length_items (hregular.submitted.handed_all hf hp plan last)
    show Decides all (r.machine.beginCall .finish) scope opened _
    rw [Machine.beginCall_finish (hf.started hp plan last)]
    exact ⟨hstarted, fun _ => hall, nofun, .draining (Or.inl rfl) (foreseen_call hbegun hnone rfl)⟩
  | @stop items e plan last =>
    rw [plan] at h hf
    obtain ⟨hbegun, hstarted, herror⟩ := h
    have hcaptured := herror e hp (getLast?_of_lastReply last)
    show Decides all (r.machine.beginCall .finish) scope opened _
    rw [Machine.beginCall_finish hf.1]
    refine ⟨hstarted, nofun, fun e' he => ?_,
      .draining (Or.inl rfl) (foreseen_call hbegun hnone rfl)⟩
    cases he
    exact hcaptured
  | unopened plan last =>
    rw [plan] at h hf
    obtain ⟨hbegun, ⟨a, hhook⟩ | ⟨-, hlast⟩⟩ := h
    · rw [hp] at hhook
      cases hhook
    · have hreply := lastReply_of_getLast? hlast
      show Decided all r.machine scope opened r.lastReply
      rw [hreply] at last ⊢
      refine .unopened (fun hreturned => last ?_) hf.1 hbegun
      rw [hreturned]
      rfl
  | lost plan last => exact absurd last (hf.not_lost hp plan)
  | close plan word =>
    rw [plan] at h
    exact h.close hp word

/-! ## Whole bundles -/

/-- What holds all along of a bundle of `SettledCode`. -/
structure Deciding (r : Run α) (all : List (WorkItem α)) (scope : Scope) (opened : Bool) :
    Prop where
  regular : r.Regular all
  runs : r.machine.RunsAll
  traced : r.machine.Traced
  settled : SettledCode r.machine.setup all scope opened
  decides : Decides all r.machine scope opened r.plan

namespace Deciding

variable {r r' : Run α}

theorem new {setup : Setup α} (hruns : ∀ n, (setup.backend.receive n).verdict = .run)
    (hsettled : SettledCode setup all scope opened) :
    (Run.bundle (.new setup scope) all).Deciding all scope opened where
  regular := .new fun n => Or.inl (hruns n)
  runs := hruns
  traced := nofun
  settled := hsettled
  decides := .new setup scope

theorem next (h : r.Deciding all scope opened) (hp : r.machine.producer = .idle) (hn : Next r r')
    (hregular : r'.Regular all) : r'.Deciding all scope opened := by
  have hdecides := h.decides.next h.regular h.runs h.settled hp hn
  rcases next_machine hn with heq | ⟨c, heq⟩
  · refine ⟨hregular, ?_, ?_, ?_, hdecides⟩
    all_goals rw [heq]
    · exact h.runs
    · exact h.traced
    · exact h.settled
  · have ht := Machine.transition_of_beginCall c hp
    have hwork := Machine.sameWork_beginCall r.machine c
    refine ⟨hregular, fun n => ?_, ?_, ?_, hdecides⟩
    all_goals rw [heq]
    · rw [Machine.verdict, hwork.setup]
      exact h.runs n
    · exact h.traced.step ht h.regular.accounted h.regular.judged h.runs
    · rw [hwork.setup]
      exact h.settled

theorem step (h : r.Deciding all scope opened) (hmove : move.IsSteady opened)
    (hstep : r.step move = some r') : r'.Deciding all scope opened := by
  have hregular := h.regular.step hmove.inner hmove.kept hstep
  rcases step_cases hstep with ⟨-, hp, hproceed⟩ | ⟨m', hm', rfl⟩
  · exact h.next hp (next_of_proceed hproceed) hregular
  · have ht := Machine.transition_of_step hm'
    have hsetup : m'.setup = r.machine.setup := (Machine.cellStep ht).2.setup
    have heven : Even r.machine all scope opened r.plan :=
      ⟨h.regular.undisturbed h.runs, h.settled⟩
    refine ⟨hregular, fun n => ?_, ?_, ?_, heven.step h.decides ht hmove⟩
    · rw [Machine.verdict, hsetup]
      exact h.runs n
    · exact h.traced.step ht h.regular.accounted h.regular.judged h.runs
    · rw [hsetup]
      exact h.settled

end Deciding

theorem deciding {setup : Setup α} {moves : List (Move α)} {r : Run α}
    (hruns : ∀ n, (setup.backend.receive n).verdict = .run)
    (hsettled : SettledCode setup all scope opened)
    (hmoves : ∀ move ∈ moves, move.IsSteady opened)
    (hrun : (Run.bundle (.new setup scope) all).follow moves = some r) :
    r.Deciding all scope opened :=
  follow_invariant (I := fun r => r.Deciding all scope opened)
    (fun h hmove hstep => h.step hmove hstep) (.new hruns hsettled) hmoves hrun

end Run

namespace Machine

/-! ## When it is over -/

variable {m : Machine α} {all : List (WorkItem α)} {scope : Scope} {opened : Bool}
  {begun : List Use}

/-- When the bundle is `Quiet` nothing is ahead any more, so all uses that were foreseen have been
made, in some order. -/
theorem Foreseen.used_of_quiet (h : m.Foreseen scope opened begun) (hq : m.Quiet) :
    ∃ done, m.scope = scope.useAll done ∧ done.Perm (begun ++ m.itemUses scope) := by
  obtain ⟨done, hscope, hperm⟩ := h.used
  have hnone : m.usesAhead scope = [] := by
    rw [usesAhead, hookUses, hq.idle, List.append_eq_nil_iff]
    refine ⟨rfl, List.flatMap_eq_nil_iff.mpr fun w hw => ?_⟩
    obtain ⟨n, hn⟩ := List.getElem?_of_mem hw
    obtain ⟨e, hphase⟩ := over_of_inFlight_zero hq.empty hn
    rcases hphase with hphase | hphase
    all_goals
      rw [Worker.usesAhead, Worker.code?, hphase]
      rfl
  rw [hnone, List.append_nil] at hperm
  exact ⟨done, hscope, hperm⟩

theorem Foreseen.returned (h : m.Foreseen scope opened begun) (hq : m.Quiet) (ha : m.Accounted)
    (hb : m.Barred) (hruns : m.RunsAll) (hempty : m.cell.captured = none) {n : Nat}
    {w : Worker α} (hw : m.workers[n]? = some w) :
    (w.item.effect m.setup.intake scope).outcome = .returned := by
  obtain ⟨e, he, -⟩ := ending_of_inFlight_zero hq.empty hw
  have hbegun : e ≠ .unstarted := by
    rintro rfl
    exact hb.kept n ⟨w, hw, he⟩ (hruns n)
  rcases captured_of_recorded (recorded_of_ending ha hw he) hbegun with rfl | hfull
  · exact (Option.some.inj ((h.workers n w hw).fate _ (WorkerPhase.fate?_of_ending? he))).symm
  · rw [hempty] at hfull
    cases hfull

/-- The captured failure is that of an item which fails by its own `effect`; that it was captured
and not another is the schedule's doing. -/
theorem Foreseen.failure (h : m.Foreseen scope opened begun) (ht : m.Traced) {f : Failure}
    (hf : m.cell.captured = some f) : ∃ item, m.items[f.item]? = some item ∧
      (item.effect m.setup.intake scope).outcome.failure? f.item f.identity = some f := by
  obtain ⟨w, e, hw, he, htells⟩ := ht f hf
  refine ⟨w.item, by rw [items, List.getElem?_map, hw]; rfl, ?_⟩
  exact htells.failure? ((h.workers _ w hw).fate e he)

/-- The aggregators were used like this, in some order. Order does not matter, because combining is
commutative and associative for all three combiners of `Combiner`. -/
def HasUsed (m : Machine α) (scope : Scope) (uses : List Use) : Prop :=
  ∃ done, m.scope = scope.useAll done ∧ done.Perm uses

end Machine

namespace Run

/-- How a bundle ends, by its reply. This is `Decided` without the engine, so that `outcome` and
`uses` can be compared with it. -/
inductive Ends (m : Machine α) (scope : Scope) (all : List (WorkItem α)) : Reply → Prop
  | unopened (failed : (hookEffect m scope .start).outcome ≠ .returned)
      (used : m.HasUsed scope (hookEffect m scope .start).uses) :
      Ends m scope all (m.setup.hookReply .start (hookEffect m scope .start).outcome)
  | failed {n : Nat} {item : WorkItem α} {f : Failure}
      (started : (hookEffect m scope .start).outcome = .returned) (mem : all[n]? = some item)
      (failure : (item.effect m.setup.intake scope).outcome.failure? n f.identity = some f) :
      Ends m scope all (.answer (.error f.toError))
  | finished (started : (hookEffect m scope .start).outcome = .returned)
      (returned : ∀ item ∈ all, (item.effect m.setup.intake scope).outcome = .returned)
      (used : m.HasUsed scope ((hookEffect m scope .start).uses ++
        all.flatMap (fun item => (item.effect m.setup.intake scope).uses) ++
        (hookEffect m scope .finish).uses)) :
      Ends m scope all (m.setup.hookReply .finish (hookEffect m scope .finish).outcome)

theorem Deciding.ends {r : Run α} {all : List (WorkItem α)} {scope : Scope} {opened : Bool}
    {reply : Reply} (h : r.Deciding all scope opened) (hplan : r.plan = .over reply) :
    Ends r.machine scope all reply := by
  have hq := h.regular.sound.quiet hplan
  have hsubmitted := h.regular.submitted
  have hdecides := h.decides
  rw [hplan] at hsubmitted hdecides
  obtain ⟨k, hhanded, -⟩ := hsubmitted
  obtain rfl := h.runs.length_items hhanded
  have hitems : r.machine.items = all.take r.machine.items.length := by
    rw [← hhanded.first, List.take_length]
  cases hdecides with
  | unopened failed none begun =>
    refine .unopened failed ?_
    obtain ⟨done, hscope, hperm⟩ := begun.used_of_quiet hq
    have hnone : r.machine.itemUses scope = [] := by rw [Machine.itemUses, Machine.items, none]; rfl
    rw [hnone, List.append_nil] at hperm
    exact ⟨done, hscope, hperm⟩
  | failed started full begun =>
    obtain ⟨item, hitem, hfailure⟩ := begun.failure h.traced full
    rw [hitems, List.getElem?_take] at hitem
    split at hitem
    · exact .failed started hitem hfailure
    · cases hitem
  | finished started empty every framed =>
    have hall : r.machine.items = all := by rw [hitems, every, List.take_length]
    refine .finished started ?_ ?_
    · intro item hmem
      obtain ⟨n, hn⟩ := List.getElem?_of_mem hmem
      rw [← hall, Machine.items, List.getElem?_map] at hn
      obtain ⟨w, hw, rfl⟩ := Option.map_eq_some_iff.mp hn
      exact framed.returned hq h.regular.accounted h.regular.barred h.runs empty hw
    · obtain ⟨done, hscope, hperm⟩ := framed.used_of_quiet hq
      refine ⟨done, hscope, hperm.trans ?_⟩
      rw [Machine.itemUses, hall, List.append_assoc, List.append_assoc]
      exact List.perm_append_comm.append_left _

end Run

/-! ## The answer -/

/-- How a bundle comes out, as far as no schedule can change it: which item is blamed can depend on
the schedule, so `itemFailed` does not say. -/
inductive BundleOutcome where
  | startFailed
  | itemFailed
  | finishFailed
  | succeeded
  deriving DecidableEq, Repr

def Reply.outcome? : Reply → Option BundleOutcome
  | .answer (.ok ()) => some .succeeded
  | .answer (.error (.workItem ..)) => some .itemFailed
  | .answer (.error (.hook _ hook _)) =>
    if hook = Hook.start.name then some .startFailed
    else if hook = Hook.finish.name then some .finishFailed
    else none
  | _ => none

namespace Processor

/-- How a bundle of these items comes out, told from the `effect` of its hooks and its items. No
engine occurs in it, and hence neither tickets nor backend. -/
def outcome (p : Processor α) (intake : Intake α) (scope : Scope) (items : List (WorkItem α)) :
    BundleOutcome :=
  if (p.effect intake scope .start).outcome ≠ .returned then .startFailed
  else if ∃ item ∈ items, (item.effect intake scope).outcome ≠ .returned then .itemFailed
  else if (p.effect intake scope .finish).outcome ≠ .returned then .finishFailed
  else .succeeded

/-- How a bundle of these items uses the aggregators if no item fails. The finish hook is left out
if the start hook does not end as `returned`, since the bundle is then never finished. -/
def uses (p : Processor α) (intake : Intake α) (scope : Scope) (items : List (WorkItem α)) :
    List Use :=
  (p.effect intake scope .start).uses ++
    if (p.effect intake scope .start).outcome = .returned then
      items.flatMap (fun item => (item.effect intake scope).uses) ++
        (p.effect intake scope .finish).uses
    else []

end Processor

theorem Outcome.failed_of_failure? {n identity : Nat} {outcome : Outcome} {f : Failure}
    (h : outcome.failure? n identity = some f) : outcome ≠ .returned ∧ f.item = n := by
  cases outcome <;> cases h <;> exact ⟨nofun, rfl⟩

namespace Run

variable {m : Machine α} {all : List (WorkItem α)} {scope : Scope} {reply : Reply}

theorem Ends.outcome (h : Ends m scope all reply)
    (hhooks : ∀ hook, (hookEffect m scope hook).outcome ≠ .panicked) :
    reply.outcome? = some (m.setup.processor.outcome m.setup.intake scope all) := by
  have hstart := hhooks .start
  have hfinish := hhooks .finish
  cases h with
  | unopened failed =>
    simp only [hookEffect] at failed hstart ⊢
    rw [Processor.outcome, if_pos failed]
    cases ho : (m.setup.processor.effect m.setup.intake scope .start).outcome with
    | returned => exact absurd ho failed
    | panicked => exact absurd ho hstart
    | failed cause => rfl
  | failed started mem failure =>
    simp only [hookEffect] at started
    have hfails : ∃ item ∈ all, (item.effect m.setup.intake scope).outcome ≠ .returned :=
      ⟨_, List.mem_of_getElem? mem, (Outcome.failed_of_failure? failure).1⟩
    rw [Processor.outcome, if_neg (not_not.mpr started), if_pos hfails]
    rfl
  | finished started returned =>
    simp only [hookEffect] at started hfinish ⊢
    have hnone : ¬ ∃ item ∈ all, (item.effect m.setup.intake scope).outcome ≠ .returned := by
      rintro ⟨item, hitem, hfails⟩
      exact hfails (returned item hitem)
    rw [Processor.outcome, if_neg (not_not.mpr started), if_neg hnone]
    cases ho : (m.setup.processor.effect m.setup.intake scope .finish).outcome with
    | returned => rfl
    | panicked => exact absurd ho hfinish
    | failed cause => rfl

theorem Ends.failure (h : Ends m scope all reply) {f : Failure}
    (hf : reply = .answer (.error f.toError)) :
    ∃ item, all[f.item]? = some item ∧
      (item.effect m.setup.intake scope).outcome.failure? f.item f.identity = some f := by
  cases h with
  | unopened =>
    cases ho : (hookEffect m scope .start).outcome <;> rw [ho] at hf <;> cases hf
  | @failed n item g _ mem failure =>
    obtain ⟨-, rfl⟩ := Outcome.failed_of_failure? failure
    obtain rfl : g = f := by
      cases f
      cases g
      simpa [Failure.toError] using hf
    exact ⟨item, mem, failure⟩
  | finished =>
    cases ho : (hookEffect m scope .finish).outcome <;> rw [ho] at hf <;> cases hf

theorem Ends.used (h : Ends m scope all reply)
    (hreturned : ∀ item ∈ all, (item.effect m.setup.intake scope).outcome = .returned) :
    m.HasUsed scope (m.setup.processor.uses m.setup.intake scope all) := by
  cases h with
  | unopened failed used =>
    simp only [hookEffect] at failed used
    rw [Processor.uses, if_neg failed, List.append_nil]
    exact used
  | failed _ mem failure =>
    exact absurd (hreturned _ (List.mem_of_getElem? mem)) (Outcome.failed_of_failure? failure).1
  | finished started _ used =>
    simp only [hookEffect] at started used
    rw [Processor.uses, if_pos started, ← List.append_assoc]
    exact used

/-- How a bundle comes out depends on its hooks and its items alone, and not on the number of
tickets, the schedule, or the backend, as long as that runs every task. If it fails with an item,
the failure is that of an item which fails; and if no item fails, the aggregator of a name is the
fold of all values that the hooks and the items add under the name. If the code waits for nobody
else, the bundle does come out: it takes a bounded number of steps, and never gets stuck. -/
theorem same_on_any_schedule {processor : Processor α} {intake : Intake α}
    {parallelism : Parallelism} {backend : Backend} {items : List (WorkItem α)}
    {moves : List (Move α)} {opened : Bool} {r : Run α}
    (hruns : ∀ n, (backend.receive n).verdict = .run)
    (hhooks : ∀ hook, processor.Returns intake scope hook)
    (hitems : ∀ item ∈ items, item.IsSettled intake scope ∧
      ∀ action ∈ item.script, action.IsSupplied opened)
    (hmoves : ∀ move ∈ moves, move.IsSteady opened)
    (hrun : (Run.bundle (.new { processor, parallelism, backend, intake } scope) items).follow moves =
      some r) :
    (∀ reply, r.result? = some reply →
      reply.outcome? = some (processor.outcome intake scope items) ∧
      (∀ f : Failure, reply = .answer (.error f.toError) → ∃ item, items[f.item]? = some item ∧
        (item.effect intake scope).outcome.failure? f.item f.identity = some f) ∧
      ((∀ item ∈ items, (item.effect intake scope).outcome = .returned) →
        scope.aggregators.Sound → Agree (processor.uses intake scope items) →
        ∀ name, r.machine.scope.aggregators.get? name =
          ((processor.uses intake scope items).filter (name = ·.name)).foldl Use.onto
            (scope.aggregators.get? name))) ∧
      (Setup.IsPrompt { processor, parallelism, backend, intake } items → r.CanEnd opened ∧
        moves.countP Move.isStep ≤
          (Run.bundle (.new { processor, parallelism, backend, intake } scope) items).work) := by
  refine ⟨fun reply hresult => ?_, fun hprompt => terminates hprompt hmoves hrun⟩
  have hdeciding := deciding hruns ⟨hitems, fun hook => (hhooks hook).settles⟩ hmoves hrun
  have hends := hdeciding.ends (plan_of_result? hresult)
  have hsetup : r.machine.setup = { processor, parallelism, backend, intake } := by
    obtain ⟨expanded, hexpanded, -⟩ := follow_machine hrun
    exact Machine.setup_run hexpanded
  have hhooks' : ∀ hook, (hookEffect r.machine scope hook).outcome ≠ .panicked := by
    simp only [hookEffect, hsetup]
    exact fun hook => (hhooks hook).outcome_effect
  have houtcome := hends.outcome hhooks'
  have hfailure := fun f hf => hends.failure (f := f) hf
  have hused := hends.used
  simp only [hsetup] at houtcome hfailure hused
  refine ⟨houtcome, hfailure, ?_⟩
  intro hreturned hsound hagree name
  obtain ⟨done, hscope, hperm⟩ := hused hreturned
  have hdone : Agree done := fun u hu v hv =>
    hagree u (hperm.mem_iff.mp hu) v (hperm.mem_iff.mp hv)
  rw [hscope, Scope.get?_useAll_perm hsound hperm hdone, Scope.get?_useAll hsound]

/-- Hooks that count along with the items. -/
def tallyProcessor : Processor Nat :=
  { name := "tally", startHook := [.add "seen" .sum 1], finishHook := [.add "seen" .sum 100] }

def tallyItems : List (WorkItem Nat) :=
  [{ value := 7, script := [.emit (.output (.given 7)), .add "seen" .sum 7] },
    { value := 8, script := [.add "seen" .sum 8] }]

/-- The second worker is through before the first begins. -/
def tallyMoves : List (Move Nat) :=
  List.replicate 13 .producer ++ List.replicate 5 (.worker 1) ++ List.replicate 8 (.worker 0) ++
    List.replicate 5 .producer

theorem same_on_any_schedule_tally :
    ∃ r, (Run.bundle (.new { processor := tallyProcessor }) tallyItems).follow tallyMoves = some r ∧
      r.result? = some (.answer (.ok ())) ∧
      tallyProcessor.outcome default {} tallyItems = .succeeded ∧
      r.machine.scope.aggregators.get? "seen" = some ⟨"seen", .sum, 116⟩ := by
  have hresult : ((Run.bundle (.new { processor := tallyProcessor }) tallyItems).follow
      tallyMoves).map (·.result?) = some (some (.answer (.ok ()))) := by
    decide +kernel
  obtain ⟨r, hrun, hresult⟩ := Option.map_eq_some_iff.mp hresult
  have hruns : ∀ n, ((default : Backend).receive n).verdict = .run := fun _ => rfl
  have hintact : (default : Intake Nat).IsIntact := Intake.isIntact_collecting fun _ => rfl
  have hhooks : ∀ hook, tallyProcessor.Returns default {} hook :=
    fun hook => hintact.returns (by cases hook <;> decide)
  have hsupplied : ∀ item ∈ tallyItems, ∀ action ∈ item.script, action.IsSupplied false := by
    simp [tallyItems, Action.IsSupplied]
  have hmoves : ∀ move ∈ tallyMoves, move.IsSteady false := by
    simp only [tallyMoves, List.mem_append, List.mem_replicate]
    rintro move (((⟨-, rfl⟩ | ⟨-, rfl⟩) | ⟨-, rfl⟩) | ⟨-, rfl⟩)
    all_goals exact ⟨rfl, nofun, nofun⟩
  have hreturned : ∀ item ∈ tallyItems, (item.effect default {}).outcome = .returned := by
    simp only [tallyItems, List.mem_cons, List.not_mem_nil, or_false]
    rintro item (rfl | rfl) <;> decide
  have hagree : Agree (tallyProcessor.uses default {} tallyItems) := by decide
  have hsettled : ∀ item ∈ tallyItems, item.IsSettled default {} ∧
      ∀ action ∈ item.script, action.IsSupplied false :=
    fun item hitem => ⟨hintact.isSettled item, hsupplied item hitem⟩
  obtain ⟨houtcome, -, htotals⟩ :=
    (same_on_any_schedule hruns hhooks hsettled hmoves hrun).1 _ hresult
  refine ⟨r, hrun, hresult, (Option.some.inj houtcome).symm, ?_⟩
  rw [htotals hreturned Aggregators.sound_empty hagree]
  decide

end Run

end WorkBundle
