import WorkBundle.Proofs.Barrier
import WorkBundle.Proofs.Mixture
import WorkBundle.Proofs.Regular

/-!
# The output of a bundle

What the sink holds when a whole bundle has ended: what the start hook has emitted, then the
emissions of the items that were accepted, mixed in any way but each item's complete and in order,
then what the finish hook has emitted, if it ran. `Run.Yields` says for each point of the plan how
far this has come. It leans on the drain: the finish hook begins when no worker is in flight any
more, so nothing is mixed in with its emissions.
-/

set_option autoImplicit false

namespace WorkBundle

variable {α : Type}

theorem Phase.isFinishing_eq_false {p : Phase α} (h : p.hook? = none) : p.isFinishing = false := by
  cases p <;> first | rfl | cases h

namespace Machine

def BeginsFinishHook (m : Machine α) : Prop :=
  m.producer = .finishing { script := m.setup.processor.finishHook }

/-- What the sink records of a hook that runs to its end, and finds this scope when it begins. -/
def hookRecords (m : Machine α) (hook : Hook) (found : Scope) : List (Emission (Output α)) :=
  (m.setup.processor.effect m.setup.intake found hook).records

theorem hookRecords_congr {m m' : Machine α} (hsetup : m'.setup = m.setup) :
    m'.hookRecords = m.hookRecords := by
  funext hook found
  rw [hookRecords, hookRecords, hsetup]

theorem hookRecords_collecting {m : Machine α} {pause : Option Nat}
    (h : m.setup.intake = .collecting pause fun _ => false) (hook : Hook) (found : Scope) :
    m.hookRecords hook found = m.setup.processor.emissions found hook := by
  rw [hookRecords, Processor.effect, h]
  exact execute_records_collecting pause none found _

theorem hookAhead_of_begun {m : Machine α} {hook : Hook}
    (hp : m.producer.hook? = some (hook, { script := m.setup.processor.script hook })) :
    m.hookAhead = m.hookRecords hook m.scope := by
  rw [hookAhead, hp]
  rfl

theorem hookAhead_of_idle {m : Machine α} (hp : m.producer = .idle) : m.hookAhead = [] := by
  rw [hookAhead, hp]
  rfl

theorem hookAhead_congr {m m' : Machine α} (hsetup : m'.setup = m.setup)
    (hhook : m'.producer.hook? = m.producer.hook?) (hscope : m'.scope = m.scope) :
    m'.hookAhead = m.hookAhead := by
  rw [hookAhead, hookAhead, hsetup, hhook, hscope]

end Machine

namespace Run

/-! ## When the finish hook runs -/

/-- At some moment of the run, its beginning and its end included, `P` holds. Unlike
`Machine.Happens` it is about the states of a run and not about its moves. -/
def Passes (r : Run α) (moves : List (Move α)) (P : Run α → Prop) : Prop :=
  ∃ before after r₁, moves = before ++ after ∧ r.follow before = some r₁ ∧ P r₁

/-- At some moment of the run the finish hook is in progress, that is, some prefix of the moves
leads to a phase with `isFinishing`. -/
def RunsFinishHook (r : Run α) (moves : List (Move α)) : Prop :=
  r.Passes moves fun r₁ => r₁.machine.producer.isFinishing = true

/-- The finish hook begins at some moment of the run, and then the scope is this one. It begins once
at most, so there is at most one such scope. -/
def FinishHookFinds (r : Run α) (moves : List (Move α)) (found : Scope) : Prop :=
  r.Passes moves fun r₁ => r₁.machine.BeginsFinishHook ∧ r₁.machine.scope = found

theorem passes_nil {r : Run α} {P : Run α → Prop} : r.Passes [] P ↔ P r := by
  constructor
  · rintro ⟨before, after, r₁, hsplit, hrun, hP⟩
    obtain ⟨rfl, -⟩ := List.append_eq_nil_iff.mp hsplit.symm
    cases hrun
    exact hP
  · exact fun hP => ⟨[], [], r, rfl, rfl, hP⟩

theorem passes_concat {r r₁ r' : Run α} {moves : List (Move α)} {move : Move α} {P : Run α → Prop}
    (hrun : r.follow moves = some r₁) (hstep : r₁.step move = some r') :
    r.Passes (moves ++ [move]) P ↔ r.Passes moves P ∨ P r' := by
  have hrun' : r.follow (moves ++ [move]) = some r' := by
    rw [follow_append, hrun, Option.bind_some, follow_singleton, hstep]
  constructor
  · rintro ⟨before, after, r₂, hsplit, hrun₂, hP⟩
    rcases List.eq_nil_or_concat after with rfl | ⟨after, final, rfl⟩
    · rw [List.append_nil] at hsplit
      rw [← hsplit, hrun'] at hrun₂
      cases hrun₂
      exact Or.inr hP
    · rw [List.concat_eq_append, ← List.append_assoc] at hsplit
      obtain ⟨rfl, -⟩ := List.append_inj' hsplit rfl
      exact Or.inl ⟨before, after, r₂, rfl, hrun₂, hP⟩
  · rintro (⟨before, after, r₂, rfl, hrun₂, hP⟩ | hP)
    · exact ⟨before, after ++ [move], r₂, by rw [List.append_assoc], hrun₂, hP⟩
    · exact ⟨moves ++ [move], [], r', by rw [List.append_nil], hrun', hP⟩

/-! ## What the sink holds -/

/-- What the sink holds at each point of the plan, where `ran` says that the finish hook has begun,
and `finds` in which scope. Until the submissions begin, it holds the first part of what the start
hook emits; then a mixture of the workers follows (`Machine.Mixed`), and last what the finish hook
emits. -/
def Yields (m : Machine α) (scope : Scope) (ran : Prop) (finds : Scope → Prop) : Plan α → Prop
  | .none => False
  | .opening _ => ¬ ran ∧ m.scope = scope ∧ m.output = []
  | .opened _ => ¬ ran ∧ m.output ++ m.hookAhead = m.hookRecords .start scope
  | .feeding _ =>
    ¬ ran ∧ ∃ tagged, m.Mixed scope tagged ∧
      m.output = m.hookRecords .start scope ++ tagged.map (·.2)
  | .closing _ =>
    ∃ tagged, m.Mixed scope tagged ∧
      (¬ ran ∧ m.producer.hook? = none ∧
          m.output = m.hookRecords .start scope ++ tagged.map (·.2) ∨
        ran ∧ (m.producer.hook?.isSome = true ∨ m.producer = .idle) ∧ ∃ found, finds found ∧
          m.output ++ m.hookAhead =
            m.hookRecords .start scope ++ tagged.map (·.2) ++ m.hookRecords .finish found)
  | .over reply =>
    ∃ tagged, m.Mixed scope tagged ∧
      (¬ ran ∧ m.output = m.hookRecords .start scope ++ tagged.map (·.2) ∨
        ran ∧ ¬ reply.Blames .start ∧ ∃ found, finds found ∧
          m.output =
            m.hookRecords .start scope ++ tagged.map (·.2) ++ m.hookRecords .finish found)

variable {m m' : Machine α} {scope : Scope} {ran ran' : Prop} {finds finds' : Scope → Prop}
  {plan : Plan α}

/-- What one step adds to what `RunsFinishHook` and `FinishHookFinds` say of the moves so far: both
look at the state that the step has led to, and at nothing else of the run. -/
structure Learns (m' : Machine α) (ran ran' : Prop) (finds finds' : Scope → Prop) : Prop where
  ran : ran' ↔ ran ∨ m'.producer.isFinishing = true
  kept : ∀ found, finds found → finds' found
  begun : m'.BeginsFinishHook → finds' m'.scope

theorem Yields.mono (h : Yields m scope ran finds plan)
    (hkept : ∀ found, finds found → finds' found) : Yields m scope ran finds' plan := by
  cases plan with
  | closing | «over» =>
    obtain ⟨tagged, hmixed, hstate⟩ := h
    refine ⟨tagged, hmixed, hstate.imp_right ?_⟩
    rintro ⟨hran, hphase, found, hfound, hout⟩
    exact ⟨hran, hphase, found, hkept found hfound, hout⟩
  | _ => exact h

/-- The hook that is in progress while a bundle is finished is the finish hook. -/
theorem isFinishing_of_closing {failed : Option ExecutionError} (hf : Follows m (.closing failed))
    (hhook : m.producer.hook?.isSome = true) : m.producer.isFinishing = true := by
  obtain ⟨-, hp⟩ := hf
  cases hproducer : m.producer with
  | finishing => rfl
  | starting =>
    rw [hproducer] at hp
    rcases hp with hp | hquiet
    · cases hp
    · cases hproducer.symm.trans hquiet.idle
  | _ =>
    rw [hproducer] at hhook
    cases hhook

theorem Yields.closing {failed : Option ExecutionError}
    (h : Yields m scope ran finds (.closing failed)) (hs : m.Sends m' scope)
    (hsetup : m'.setup = m.setup) (hf : Follows m (.closing failed)) (htickets : m.TicketsOk)
    (hidle : m.producer = .idle → m'.producer = .idle) (hlearns : Learns m' ran ran' finds finds') :
    Yields m' scope ran' finds' (.closing failed) := by
  have hrecords := Machine.hookRecords_congr hsetup
  obtain ⟨tagged, hmixed, hstate⟩ := h
  simp only [Yields, hrecords]
  cases hs with
  | nobody output shared mixed hook =>
    refine ⟨tagged, mixed tagged hmixed, ?_⟩
    rcases hook with hhook | ⟨hdrained, hbegun⟩
    · rcases hstate with ⟨hnot, hnone, hout⟩ | ⟨hyes, hphase, found, hfound, hout⟩
      · refine Or.inl ⟨?_, hhook.trans hnone, output.trans hout⟩
        rw [hlearns.ran, Phase.isFinishing_eq_false (hhook.trans hnone)]
        simpa using hnot
      · refine Or.inr ⟨hlearns.ran.mpr (Or.inl hyes), ?_, found, hlearns.kept found hfound, ?_⟩
        · rw [hhook]
          exact hphase.imp_right hidle
        · rw [output, Machine.hookAhead_congr hsetup hhook shared]
          exact hout
    -- The drain is complete, and the finish hook begins in the present scope.
    · rcases hstate with ⟨-, -, hout⟩ | ⟨-, hphase, -⟩
      · have hbegins : m'.BeginsFinishHook := by rw [Machine.BeginsFinishHook, hbegun, hsetup]
        have hran : ran' := hlearns.ran.mpr (Or.inr (by rw [hbegun]; rfl))
        refine Or.inr ⟨hran, Or.inl (by rw [hbegun]; rfl), m'.scope, hlearns.begun hbegins, ?_⟩
        have hahead : m'.hookAhead = m.hookRecords .finish m'.scope := by
          rw [← hrecords]
          exact Machine.hookAhead_of_begun (by rw [hbegins]; rfl)
        rw [output, hahead, hout]
      · rw [hdrained] at hphase
        rcases hphase with hphase | hphase <;> cases hphase
  | @worker n out output mixed producer flight =>
    refine ⟨tagged ++ out.map (n, ·), mixed tagged hmixed, ?_⟩
    rcases hstate with ⟨hnot, hnone, hout⟩ | ⟨-, hphase, -⟩
    · refine Or.inl ⟨?_, by rw [producer]; exact hnone, ?_⟩
      · rw [hlearns.ran, producer, Phase.isFinishing_eq_false hnone]
        simpa using hnot
      · rw [output, hout, List.map_append, map_snd_tag, List.append_assoc]
    -- With the finish hook begun, no worker is in flight.
    · refine absurd ?_ flight
      rcases hphase with hphase | hidle
      · exact htickets.inFlight_zero (Or.inr (isFinishing_of_closing hf hphase))
      · rcases hf.2 with hp | hquiet
        · rw [hidle] at hp
          cases hp
        · exact hquiet.empty
  | @hook out output mixed ahead phase next =>
    refine ⟨tagged, mixed tagged hmixed, ?_⟩
    rcases hstate with ⟨-, hnone, -⟩ | ⟨hyes, -, found, hfound, hout⟩
    · rw [hnone] at phase
      cases phase
    · refine Or.inr ⟨hlearns.ran.mpr (Or.inl hyes), next, found, hlearns.kept found hfound, ?_⟩
      rw [output, List.append_assoc, ← ahead]
      exact hout

theorem Yields.step (h : Yields m scope ran finds plan) (hs : m.Sends m' scope)
    (hsetup : m'.setup = m.setup) (hf : Follows m plan) (hf' : Follows m' plan)
    (htickets : m.TicketsOk) (hidle : m.producer = .idle → m'.producer = .idle)
    (hlearns : Learns m' ran ran' finds finds') : Yields m' scope ran' finds' plan := by
  have hrecords := Machine.hookRecords_congr hsetup
  -- Away from the finish hook, it has not begun just now.
  have hsame (hnone : m'.producer.isFinishing = false) : ran' ↔ ran := by
    rw [hlearns.ran, hnone]
    simp
  have hnoHook {P : Prop} (hnone : m.producer.hook? = none)
      (hsome : m.producer.hook?.isSome = true) : P := by
    rw [hnone] at hsome
    cases hsome
  cases plan with
  | none => exact h
  | closing => exact h.closing hs hsetup hf htickets hidle hlearns
  | opening =>
    obtain ⟨hnot, hscope, hout⟩ := h
    refine ⟨by rw [hsame (by rw [hf'.2.1]; rfl)]; exact hnot, ?_⟩
    cases hs with
    | nobody output shared => exact ⟨shared.trans hscope, output.trans hout⟩
    | worker _ _ _ flight => exact absurd (inFlight_nil hf.2.2) flight
    | hook _ _ _ phase => exact hnoHook (by rw [hf.2.1]; rfl) phase
  | opened =>
    obtain ⟨hnot, hout⟩ := h
    have hcalm : m'.producer.isFinishing = false := by
      rcases hf'.2 with ⟨a, hp⟩ | ⟨hp, -⟩
      all_goals rw [hp]; rfl
    refine ⟨by rw [hsame hcalm]; exact hnot, ?_⟩
    rw [hrecords, ← hout]
    cases hs with
    | nobody output shared _ hook =>
      rcases hook with hhook | ⟨hdrained, -⟩
      · rw [output, Machine.hookAhead_congr hsetup hhook shared]
      · rcases hf.2 with ⟨a, hp⟩ | ⟨hp, -⟩
        all_goals cases hdrained.symm.trans hp
    | worker _ _ _ flight => exact absurd (inFlight_nil hf.1) flight
    | hook output _ ahead => rw [output, ahead, List.append_assoc]
  | feeding =>
    obtain ⟨hnot, tagged, hmixed, hout⟩ := h
    have hcalm := Phase.isFinishing_eq_false (hook?_of_feeding hf')
    refine ⟨by rw [hsame hcalm]; exact hnot, ?_⟩
    rw [hrecords]
    cases hs with
    | nobody output _ mixed => exact ⟨tagged, mixed tagged hmixed, output.trans hout⟩
    | @worker n out output mixed =>
      refine ⟨tagged ++ out.map (n, ·), mixed tagged hmixed, ?_⟩
      rw [output, hout, List.map_append, map_snd_tag, List.append_assoc]
    | hook _ _ _ phase => exact hnoHook (hook?_of_feeding hf) phase
  | _ =>
    refine Yields.mono ?_ hlearns.kept
    obtain ⟨tagged, hmixed, hstate⟩ := h
    simp only [Yields, hrecords, hsame (by rw [hf'.idle]; rfl)]
    cases hs with
    | nobody output _ mixed => exact ⟨tagged, mixed tagged hmixed, output ▸ hstate⟩
    | worker _ _ _ flight => exact absurd hf.empty flight
    | hook _ _ _ phase => exact hnoHook (by rw [hf.idle]; rfl) phase

theorem Yields.mixture {r : Run α} {items : List (WorkItem α)}
    (h : Yields r.machine scope ran finds r.plan) (hf : Follows r.machine r.plan)
    (hp : r.machine.producer = .idle) (hplan : r.plan = .opened items ∨ r.plan = .feeding items) :
    ¬ ran ∧ ∃ tagged, r.machine.Mixed scope tagged ∧
      r.machine.output = r.machine.hookRecords .start scope ++ tagged.map (·.2) := by
  rcases hplan with hplan | hplan
  · rw [hplan] at h hf
    obtain ⟨hnot, hout⟩ := h
    rw [Machine.hookAhead_of_idle hp, List.append_nil] at hout
    exact ⟨hnot, [], .nil hf.1, by rw [hout]; exact (List.append_nil _).symm⟩
  · rw [hplan] at h
    exact h

theorem Yields.next {r r' : Run α} {all : List (WorkItem α)}
    (h : Yields r.machine scope ran finds r.plan) (hsub : Submitted all r.machine r.plan)
    (hb : Blamed r.machine r.plan) (hf : Follows r.machine r.plan)
    (hp : r.machine.producer = .idle) (hn : Next r r') :
    Yields r'.machine scope ran finds r'.plan := by
  -- A finish call leaves the sink as it is, with no hook in progress.
  have hfinish {failed : Option ExecutionError} {items : List (WorkItem α)}
      (hplan : r.plan = .opened items ∨ r.plan = .feeding items)
      (hs : r.machine.stage = .started) :
      Yields (r.machine.beginCall .finish) scope ran finds (.closing failed) := by
    obtain ⟨hnot, tagged, hmixed, hout⟩ := h.mixture hf hp hplan
    rw [Machine.beginCall_finish hs]
    exact ⟨tagged, hmixed.same rfl rfl, Or.inl ⟨hnot, rfl, hout⟩⟩
  cases hn with
  | @start items plan =>
    rw [plan] at h hf
    obtain ⟨hnot, hscope, hout⟩ := h
    show Yields (r.machine.beginCall .start) scope ran finds _
    rw [Machine.beginCall_start hf.1]
    refine ⟨hnot, ?_⟩
    rw [Machine.hookAhead_of_begun rfl]
    exact congr (congrArg _ hout) (congrArg _ hscope)
  | @submit item items plan last =>
    obtain ⟨hnot, tagged, hmixed, hout⟩ := h.mixture hf hp plan
    show Yields (r.machine.beginCall (.submit item)) scope ran finds _
    rw [Machine.beginCall_submit (hf.started hp plan last)]
    exact ⟨hnot, tagged, hmixed.same rfl rfl, hout⟩
  | finish plan last => exact hfinish plan (hf.started hp plan last)
  | stop plan =>
    rw [plan] at hf
    exact hfinish (Or.inr plan) hf.1
  | unopened plan =>
    obtain ⟨hnot, tagged, hmixed, hout⟩ := h.mixture hf hp (Or.inl plan)
    exact ⟨tagged, hmixed, Or.inl ⟨hnot, hout⟩⟩
  | lost plan =>
    obtain ⟨hnot, tagged, hmixed, hout⟩ := h.mixture hf hp (Or.inr plan)
    exact ⟨tagged, hmixed, Or.inl ⟨hnot, hout⟩⟩
  | @close failed reply plan word =>
    rw [plan] at h hb hsub
    obtain ⟨tagged, hmixed, hstate⟩ := h
    refine ⟨tagged, hmixed, ?_⟩
    rcases hstate with ⟨hnot, -, hout⟩ | ⟨hyes, -, found, hfound, hout⟩
    · exact Or.inl ⟨hnot, hout⟩
    · rw [Machine.hookAhead_of_idle hp, List.append_nil] at hout
      exact Or.inr ⟨hyes, not_blames_start hsub hb word, found, hfound, hout⟩

/-! ## Whole bundles -/

/-- What holds all along of a bundle whose items are steady. `ran` and `finds` depend on the moves
so far, which is why `bundled` is an induction with the moves in view (`foldlM_induction`). -/
structure Bundled (r : Run α) (all : List (WorkItem α)) (scope : Scope) (opened : Bool)
    (ran : Prop) (finds : Scope → Prop) : Prop where
  regular : r.Regular all
  ready : r.machine.Ready scope opened
  yields : Yields r.machine scope ran finds r.plan

namespace Bundled

variable {all : List (WorkItem α)} {opened : Bool}

theorem new {setup : Setup α} (hfaithful : setup.backend.IsFaithful) (hran : ¬ ran) :
    (Run.bundle (.new setup scope) all).Bundled all scope opened ran finds where
  regular := .new hfaithful
  ready := ⟨⟨⟨rfl, rfl⟩, fun _ => rfl⟩, fun _ _ _ hw _ => by cases hw⟩
  yields := ⟨hran, rfl, rfl⟩

theorem next {r r' : Run α} (h : r.Bundled all scope opened ran finds)
    (hp : r.machine.producer = .idle) (hn : Next r r') (hregular : r'.Regular all) :
    r'.Bundled all scope opened ran finds := by
  have hr := h.regular
  refine ⟨hregular, ?_, h.yields.next hr.submitted hr.blamed hr.sound.follows hp hn⟩
  rcases next_machine hn with heq | ⟨c, heq⟩
  · rw [heq]
    exact h.ready
  · have ht := Machine.transition_of_beginCall c hp
    rw [heq]
    exact h.ready.step hr.judged ht nofun fun item hi => by cases hp.symm.trans hi

theorem step {r r' : Run α} {move : Move α} (h : r.Bundled all scope opened ran finds)
    (hmove : move.IsSteady opened)
    (hitems : ∀ item ∈ all, ∀ action ∈ item.script, action.IsSteady opened)
    (hstep : r.step move = some r')
    (hlearns : Learns r'.machine ran ran' finds finds') :
    r'.Bundled all scope opened ran' finds' := by
  have hr := h.regular
  have hregular := hr.step hmove.inner hmove.kept hstep
  rcases step_cases hstep with ⟨-, hp, hproceed⟩ | ⟨m', hm', rfl⟩
  · have hn := next_of_proceed hproceed
    have hcalm : r'.machine.producer.isFinishing = false := by
      rcases next_machine hn with heq | ⟨c, heq⟩
      · rw [heq, hp]
        rfl
      · rw [heq]
        exact isFinishing_beginCall _ c
    have heq : ran' = ran := by
      have hran := hlearns.ran
      rw [hcalm] at hran
      simpa using hran
    obtain ⟨hregular, hready, hyields⟩ := h.next hp hn hregular
    rw [heq]
    exact ⟨hregular, hready, hyields.mono hlearns.kept⟩
  · have ht := Machine.transition_of_step hm'
    refine ⟨hregular, ?_, ?_⟩
    · exact h.ready.step hr.judged ht hmove.supply fun item hp => hitems item (hr.mem hp)
    · exact h.yields.step (Machine.sends h.ready hr.barred hr.judged ht hmove)
        (Machine.cellStep ht).2.setup hr.sound.follows hregular.sound.follows hr.sound.tickets
        (idle_step ht hmove.inner) hlearns

end Bundled

theorem bundled {setup : Setup α} {all : List (WorkItem α)} {opened : Bool} {moves : List (Move α)}
    {r : Run α} (hfaithful : setup.backend.IsFaithful)
    (hitems : ∀ item ∈ all, ∀ action ∈ item.script, action.IsSteady opened)
    (hmoves : ∀ move ∈ moves, move.IsSteady opened)
    (hrun : (Run.bundle (.new setup scope) all).follow moves = some r) :
    r.Bundled all scope opened ((Run.bundle (.new setup scope) all).RunsFinishHook moves)
      ((Run.bundle (.new setup scope) all).FinishHookFinds moves) := by
  refine foldlM_induction
    (Q := fun moves r => (∀ move ∈ moves, move.IsSteady opened) →
      r.Bundled all scope opened ((Run.bundle (.new setup scope) all).RunsFinishHook moves)
        ((Run.bundle (.new setup scope) all).FinishHookFinds moves))
    (fun _ => .new hfaithful fun hran => by cases passes_nil.mp hran) ?_ hrun hmoves
  intro moves r₁ r' move hrun₁ ih hstep hall
  obtain ⟨hbefore, hlast⟩ := List.forall_mem_append.mp hall
  refine (ih hbefore).step (hlast move List.mem_cons_self) hitems hstep ⟨?_, ?_, ?_⟩
  · exact passes_concat hrun₁ hstep
  · exact fun found hfound => (passes_concat hrun₁ hstep).mpr (Or.inl hfound)
  · exact fun hbegins => (passes_concat hrun₁ hstep).mpr (Or.inr ⟨hbegins, rfl⟩)

/-- Meanwhile nobody has changed the options and the side inputs, so a finish hook that asks only
for these finds what the start hook found. -/
theorem finishHookFinds_facts {setup : Setup α} {all : List (WorkItem α)} {opened : Bool}
    {moves : List (Move α)} {found : Scope} (hfaithful : setup.backend.IsFaithful)
    (hitems : ∀ item ∈ all, ∀ action ∈ item.script, action.IsSteady opened)
    (hmoves : ∀ move ∈ moves, move.IsSteady opened)
    (hfound : (Run.bundle (.new setup scope) all).FinishHookFinds moves found) :
    found.SameFacts scope := by
  obtain ⟨before, after, r₁, rfl, hrun, -, rfl⟩ := hfound
  have hbefore := (List.forall_mem_append.mp hmoves).1
  exact (bundled hfaithful hitems hbefore hrun).ready.steady.facts

end Run

namespace Machine

/-! ## When it is over -/

variable {m : Machine α} {scope : Scope} {all : List (WorkItem α)} {k : Nat}

/-- When nothing is under way any more, the workers have sent a shuffle (`IsShuffle`) of what the
items accepted emit: nothing is ahead of anybody, so the first parts are all. -/
theorem isShuffle_of_mixed {tagged : List (Nat × Emission (Output α))} (h : m.Mixed scope tagged)
    (hq : m.Quiet) (hhanded : m.Handed all k) :
    IsShuffle ((all.take k).map (·.records m.setup.intake scope)) (tagged.map (·.2)) := by
  refine ⟨tagged, rfl, fun n => ?_⟩
  rw [List.getElem?_map, ← hhanded.first]
  by_cases hn : n < k
  · have hitem : n < m.items.length := Nat.lt_of_lt_of_le hn hhanded.bound
    obtain ⟨w, hw, hwitem⟩ := exists_worker hitem
    have hshare := h.kept n w hw ((hhanded.kept n hitem).mpr hn)
    have hnone : w.code? = none := by
      obtain ⟨e, hphase | hphase⟩ := over_of_inFlight_zero hq.empty hw
      all_goals
        rw [Worker.code?, hphase]
        rfl
    rw [Worker.ahead, hnone, List.append_nil] at hshare
    rw [List.getElem?_take_of_lt hn, hwitem]
    exact hshare
  -- From `k` on there are only refused items, which have sent nothing.
  · have hnone : (m.items.take k)[n]? = none := by
      rw [List.getElem?_eq_none_iff, List.length_take]
      omega
    rw [hnone]
    refine h.other n fun w hw hrun => hn ?_
    have hlt := (List.getElem?_eq_some_iff.mp hw).1
    exact (hhanded.kept n (by rwa [items, List.length_map])).mp hrun

end Machine

namespace Run

theorem output_over_run {r r' : Run α} {moves : List (Move α)} {reply : Reply}
    (hplan : r.plan = .over reply) (hq : r.machine.Quiet)
    (hmoves : ∀ move ∈ moves, move.isInner = true) (hrun : r.follow moves = some r') :
    r'.machine.output = r.machine.output := by
  obtain ⟨-, -, harrivals, -⟩ := over_run hplan hq hmoves hrun
  rw [Machine.output, Machine.output, harrivals]

/-- The output of a bundle. When a whole bundle has a result, the sink holds what the start hook has
emitted, then a shuffle of the emissions of the first `k` items, each complete up to the point at
which its own processing ended, then those of the finish hook, if it ran. Just the first `k` items
were processed. They are all of them if the result is a success or an error of the finish hook, and
none, with no more emissions, if it is an error of the start hook. Nothing reaches the sink later.

A hook may ask for aggregators, so what it emits is told from the scope in which it begins
(`Processor.emissions`): that of the bundle for the start hook, and the one that is left after the
drain for the finish hook. One that asks for none emits the same in both. -/
theorem output_of_bundle {setup : Setup α} {scope : Scope} {pause : Option Nat}
    {items : List (WorkItem α)} {moves : List (Move α)} {opened : Bool} {r : Run α} {reply : Reply}
    (hintake : setup.intake = .collecting pause fun _ => false)
    (hbackend : setup.backend.IsFaithful)
    (hitems : ∀ item ∈ items, ∀ action ∈ item.script, action.IsSteady opened)
    (hmoves : ∀ move ∈ moves, move.IsSteady opened)
    (hrun : (Run.bundle (.new setup scope) items).follow moves = some r)
    (hresult : r.result? = some reply) :
    ∃ k mixture final, k ≤ items.length ∧
      r.machine.output = setup.processor.emissions scope .start ++ mixture ++ final ∧
      IsShuffle ((items.take k).map (·.emissions scope)) mixture ∧
      ((Run.bundle (.new setup scope) items).RunsFinishHook moves ∧
          (∃ found, (Run.bundle (.new setup scope) items).FinishHookFinds moves found ∧
            found.SameFacts scope ∧ final = setup.processor.emissions found .finish) ∨
        ¬ (Run.bundle (.new setup scope) items).RunsFinishHook moves ∧ final = []) ∧
      (∀ hook found, found.SameFacts scope →
        (∀ action ∈ setup.processor.script hook, action.IsSteady true) →
        setup.processor.emissions found hook =
          emissionsOf scope none (setup.processor.script hook)) ∧
      (∀ n, r.machine.Processed n ↔ n < k) ∧ r.machine.items.take k = items.take k ∧
      (reply = .answer (.ok ()) ∨ reply.Blames .finish → k = items.length) ∧
      (reply.Blames .start → k = 0 ∧ mixture = [] ∧ final = []) ∧
      ∀ later r', r.follow later = some r' → (∀ move ∈ later, move.isInner = true) →
        r'.machine.output = r.machine.output := by
  have hb := bundled hbackend hitems hmoves hrun
  have hplan := plan_of_result? hresult
  have hq := hb.regular.sound.quiet hplan
  have hsetup : r.machine.setup = setup := by
    obtain ⟨expanded, hexpanded, -⟩ := follow_machine hrun
    exact Machine.setup_run hexpanded
  rw [← hsetup] at hintake
  have hrecords := Machine.hookRecords_collecting hintake
  rw [hsetup] at hrecords
  have hsubmitted := hb.regular.submitted
  have hyields := hb.yields
  rw [hplan] at hsubmitted hyields
  obtain ⟨k, hhanded, hcomplete, hnone⟩ := hsubmitted
  obtain ⟨tagged, hmixed, hstate⟩ := hyields
  have hshuffle : IsShuffle ((items.take k).map (·.emissions scope)) (tagged.map (·.2)) := by
    have hmap : (items.take k).map (·.records r.machine.setup.intake scope) =
        (items.take k).map (·.emissions scope) :=
      List.map_congr_left fun item _ => item.records_collecting hintake scope
    rw [← hmap]
    exact Machine.isShuffle_of_mixed hmixed hq hhanded
  have hsteady (hook : Hook) (found : Scope) (hfacts : found.SameFacts scope)
      (hscript : ∀ action ∈ setup.processor.script hook, action.IsSteady true) :
      setup.processor.emissions found hook = emissionsOf scope none (setup.processor.script hook) :=
    emissionsAlone_of_steady hscript hfacts
  have hempty (hblames : reply.Blames .start) : k = 0 ∧ tagged.map (·.2) = [] := by
    obtain rfl := hnone hblames
    exact ⟨rfl, isShuffle_nil hshuffle⟩
  have hprocessed := Machine.processed_iff hb.regular.barred hq hhanded
  -- Without the finish hook there is no final part; with it, the start hook is not to blame.
  rcases hstate with ⟨hnot, hout⟩ | ⟨hran, hblameless, found, hfound, hout⟩
  · refine ⟨k, tagged.map (·.2), [], hhanded.le, ?_, hshuffle, Or.inr ⟨hnot, rfl⟩, hsteady,
      hprocessed, hhanded.first, hcomplete, fun hblames => ?_, fun later r' hrun' hinner =>
        output_over_run hplan hq hinner hrun'⟩
    · rw [hout, hrecords, List.append_nil]
    · exact ⟨(hempty hblames).1, (hempty hblames).2, rfl⟩
  · have hfacts := finishHookFinds_facts hbackend hitems hmoves hfound
    refine ⟨k, tagged.map (·.2), _, hhanded.le, ?_, hshuffle,
      Or.inl ⟨hran, found, hfound, hfacts, rfl⟩, hsteady, hprocessed, hhanded.first, hcomplete,
      fun hblames => absurd hblames hblameless, fun later r' hrun' hinner =>
        output_over_run hplan hq hinner hrun'⟩
    rw [hout, hrecords, hrecords]

def pairSetup : Setup Nat :=
  { processor :=
      { name := "pair"
        startHook := [.emit (.outputAt (.given 1) ⟨0⟩)]
        finishHook := [.report (.aggregator "seen" .sum) (some ⟨0⟩)] }
    parallelism := { count := 2 } }

def pairItems : List (WorkItem Nat) :=
  [{ value := 7, script := [.emit (.output (.given 7)), .emit (.output (.given 70))] },
    { value := 8, script := [.emit (.output (.given 8))] }]

/-- Both elements are submitted, and their workers take turns until both are done. -/
def pairMoves : List (Move Nat) :=
  List.replicate 15 .producer ++
    [1, 0, 1, 0, 1, 1, 1, 0, 1, 0, 1, 0, 1, 0, 0, 0, 0, 0, 0].map .worker ++
    List.replicate 7 .producer

theorem output_of_bundle_pair :
    ∃ r mixture final, (Run.bundle (.new pairSetup) pairItems).follow pairMoves = some r ∧
      r.result? = some (.answer (.ok ())) ∧
      r.machine.output = [.main (.given 1) ⟨0⟩] ++ mixture ++ final ∧
      IsShuffle (pairItems.map (·.emissions {})) mixture ∧ r.machine.Processed 1 := by
  have hresult : ((Run.bundle (.new pairSetup) pairItems).follow pairMoves).map (·.result?) =
      some (some (.answer (.ok ()))) := by decide +kernel
  obtain ⟨r, hrun, hresult⟩ := Option.map_eq_some_iff.mp hresult
  have hintake : pairSetup.intake = .collecting none fun _ => false := rfl
  have hbackend : pairSetup.backend.IsFaithful := fun _ => Or.inl rfl
  have hitems : ∀ item ∈ pairItems, ∀ action ∈ item.script, action.IsSteady false := by
    simp [pairItems, Action.IsSteady]
  have hmoves : ∀ move ∈ pairMoves, move.IsSteady false := by
    intro move hmove
    have hkinds : (∃ n, move = .worker n) ∨ move = .producer := by
      simp only [pairMoves, List.mem_append, List.mem_replicate, List.mem_map] at hmove
      rcases hmove with (⟨-, rfl⟩ | ⟨n, -, rfl⟩) | ⟨-, rfl⟩
      · exact Or.inr rfl
      · exact Or.inl ⟨n, rfl⟩
      · exact Or.inr rfl
    rcases hkinds with ⟨n, rfl⟩ | rfl
    all_goals exact ⟨rfl, nofun, nofun⟩
  obtain ⟨k, mixture, final, -, hout, hshuffle, -, -, hprocessed, -, hcomplete, -⟩ :=
    output_of_bundle hintake hbackend hitems hmoves hrun hresult
  obtain rfl : k = 2 := hcomplete (Or.inl rfl)
  exact ⟨r, mixture, final, hrun, hresult, hout, hshuffle, (hprocessed 1).mpr (by decide)⟩

end Run

end WorkBundle
