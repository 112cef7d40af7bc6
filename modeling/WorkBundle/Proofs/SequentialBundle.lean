import WorkBundle.Proofs.Barrier
import WorkBundle.Proofs.OneByOne
import WorkBundle.Proofs.Progress

/-!
# A bundle with a single ticket is a loop

A whole bundle on an engine with a single ticket comes to what the plain loop of
`WorkBundle.Proofs.Sequential` comes to: the same records in the same order, the same scope, the
same items processed, the same reply. `Run.Foretells` says for each point of the plan what part of
the loop is still ahead; what the sink holds, followed by that, is the same all along
(`Run.Simulates`).
-/

set_option autoImplicit false

namespace WorkBundle

variable {α : Type}

namespace Run

variable {m m' : Machine α} {move : Move α} {all : List (WorkItem α)} {s total : Summary α}
  {opened : Bool}

/-- What is ahead when nothing is: just the reply is left to be given. -/
def settled (m : Machine α) (reply : Reply) : Summary α :=
  { scope := m.scope, processed := m.items.length, reply }

/-- How the drain and the finish hook go on, where a submission may have failed before. -/
inductive Closes (m : Machine α) (all : List (WorkItem α)) (failed : Option ExecutionError) :
    Summary α → Prop
  | draining {s : Summary α} (phase : m.producer = .draining ∨ m.producer = .drained)
      (ahead : m.Ahead all s) : Closes m all failed s
  | finishing {a : Activity α} (phase : m.producer.hook? = some (.finish, a))
      (unfailed : failed = none) :
      Closes m all failed
        ((a.effect m.setup.intake none m.scope).andThen m.scope (m.setup.finished m.items.length))
  | answered {reply : Reply} (idle : m.producer = .idle) (last : m.replies.getLast? = some reply)
      (wins : ∀ e, failed = some e → reply = .answer (.error e)) :
      Closes m all failed (settled m reply)

/-- What part of `Setup.sequential` is ahead at each point of the plan. -/
def Foretells (all : List (WorkItem α)) (m : Machine α) (s : Summary α) : Plan α → Prop
  | .none => False
  | .opening _ => m.cell.captured = none ∧ m.minted = 0 ∧ s = m.setup.sequential m.scope all
  | .opened _ =>
    m.cell.captured = none ∧ m.minted = 0 ∧
      ((∃ a, m.producer.hook? = some (.start, a) ∧
          s = (a.effect m.setup.intake none m.scope).andThen m.scope (m.setup.started all)) ∨
        m.producer = .idle ∧ ∃ outcome,
          m.replies.getLast? = some (m.setup.hookReply .start outcome) ∧
            s = m.setup.started all outcome m.scope)
  | .feeding _ =>
    m.Ahead all s ∧
      ∀ e, m.producer = .idle → m.replies.getLast? = some (.answer (.error e)) → IsCaptured m e
  | .closing failed =>
    (failed = none → m.items.length = all.length) ∧ (∀ e, failed = some e → IsCaptured m e) ∧
      Closes m all failed s
  | .over reply => s = settled m reply

/-! ## One step -/

theorem settled_eq {reply : Reply} (hscope : m'.scope = m.scope) (hitems : m'.items = m.items) :
    settled m' reply = settled m reply := by
  rw [settled, settled, hscope, hitems]

theorem Foretells.opened_step {items : List (WorkItem α)} (h : Foretells all m s (.opened items))
    (hf : Follows m (.opened items)) (ht : Machine.Transition m move m')
    (hinner : move.isInner = true) :
    m.Leads m' (Foretells all m' · (.opened items)) s := by
  obtain ⟨hempty, hfirst, ⟨a, hhook, rfl⟩ | ⟨idle, outcome, hlast, rfl⟩⟩ := h
  · obtain ⟨⟨hsetup, hcaptured, hminted⟩, p, hcarries, hgoes⟩ :=
      Machine.hook_step ht hinner (inFlight_nil hf.1) hhook
    obtain ⟨out, hout, hrest⟩ := hcarries.andThen (m.setup.started all)
    refine ⟨out, _, hout, ⟨hcaptured.trans hempty, hminted.trans hfirst, ?_⟩, hrest⟩
    rw [hsetup]
    cases p with
    | going a' => exact Or.inl ⟨a', hgoes.1, rfl⟩
    | «over» outcome =>
      refine Or.inr ⟨hgoes.1, outcome, ?_, rfl⟩
      rw [hgoes.2, List.getLast?_concat]
  · obtain ⟨hcall, hwork⟩ := sameWork_of_quiet ⟨idle, inFlight_nil hf.1⟩ ht hinner
    refine Machine.leads_nothing hwork.arrivals ⟨hwork.captured.trans hempty,
      hwork.minted.trans hfirst, Or.inr ⟨hcall.producer.trans idle, outcome, ?_, ?_⟩⟩
    · rw [hcall.replies, hwork.setup]
      exact hlast
    · rw [hwork.setup, hwork.scope]

/-- The bundle is `Undisturbed` and has a single ticket. -/
structure Single (m : Machine α) (all : List (WorkItem α)) (plan : Plan α) (opened : Bool) : Prop
    extends Undisturbed m all plan where
  single : m.gate.capacity.count = 1
  supplied : m.Supplied opened

theorem Single.ahead_step {plan : Plan α} (h : Single m all plan opened) (hahead : m.Ahead all s)
    (ht : Machine.Transition m move m') (hinner : move.isInner = true)
    (hkept : ∀ n, move ≠ .drop n) (hhook : m.producer.hook? = none) :
    m.Leads m' (m'.Ahead all) s := by
  refine hahead.step ht hinner hkept h.judged h.runs hhook h.supplied ?_ ?_
  -- The only ticket is with the producer.
  · intro item hp
    have hbalance := h.tickets.balance
    rw [hp, h.single] at hbalance
    simp only [Phase.tickets] at hbalance
    omega
  · exact fun item hp => h.submitted.next_item h.follows hp

theorem Single.conclude_leads {failed : Option ExecutionError}
    (h : Single m all (.closing failed) opened)
    (hall : failed = none → m.items.length = all.length)
    (hcaptured : ∀ e, failed = some e → IsCaptured m e) (hp : m.producer = .drained)
    (hahead : m.Ahead all s) : m.Leads m.conclude (Closes m.conclude all failed) s := by
  have hlength : m.items.length = m.workers.length := List.length_map _
  rcases hahead.of_nothing_inFlight (h.tickets.inFlight_zero (Or.inl hp)) with
    ⟨hempty, rfl⟩ | ⟨f, hf, rfl⟩
  · have hunfailed : failed = none := by
      cases failed with
      | none => rfl
      | some e =>
        obtain ⟨f, hf, -⟩ := hcaptured e rfl
        cases hempty.symm.trans hf
    have hconclude : m.conclude =
        { m with producer := .finishing { script := m.setup.processor.finishHook } } := by
      simp only [Machine.conclude, hempty]
    rw [hconclude, ← hlength, hall hunfailed, List.drop_length, ← hall hunfailed]
    let hook : Activity α := { script := m.setup.processor.finishHook }
    have hfinishing : Closes { m with producer := .finishing hook } all failed
        ((hook.effect m.setup.intake none m.scope).andThen m.scope
          (m.setup.finished m.items.length)) := .finishing rfl hunfailed
    exact Machine.leads_nothing rfl hfinishing
  · have hconclude : ∃ m₁ : Machine α, m.conclude = m₁.reply (.error f.toError) ∧
        m₁.arrivals = m.arrivals ∧ m₁.scope = m.scope ∧ m₁.items = m.items := by
      simp only [Machine.conclude, hf]
      exact ⟨_, rfl, rfl, rfl, rfl⟩
    obtain ⟨m₁, heq, harrivals, hscope, hitems⟩ := hconclude
    have hsettled : settled (m₁.reply (.error f.toError)) (.answer (.error f.toError)) =
        settled m (.answer (.error f.toError)) := settled_eq hscope hitems
    rw [heq, ← hlength]
    refine Machine.leads_nothing harrivals ?_
    change Closes _ all failed (settled m (.answer (.error f.toError)))
    rw [← hsettled]
    refine .answered rfl List.getLast?_concat fun e he => ?_
    obtain ⟨g, hg, rfl⟩ := hcaptured e he
    cases hf.symm.trans hg
    rfl

/-- The drain goes on until nothing is in flight; then the captured failure is the answer, or the
finish hook begins, and all items were processed. -/
theorem Single.closing_step {failed : Option ExecutionError}
    (h : Single m all (.closing failed) opened)
    (hf : Foretells all m s (.closing failed)) (ht : Machine.Transition m move m')
    (hinner : move.isInner = true) (hkept : ∀ n, move ≠ .drop n) :
    m.Leads m' (Foretells all m' · (.closing failed)) s := by
  obtain ⟨hall, hcaptured, hcloses⟩ := hf
  have hcaptured' : ∀ e, failed = some e → IsCaptured m' e := fun e he => (hcaptured e he).step ht
  have hitems := h.toUndisturbed.items_closing ht
  have hall' : failed = none → m'.items.length = all.length := fun hnone => hitems ▸ hall hnone
  -- What is left is to say how the drain or the hook goes on.
  suffices hnext : m.Leads m' (Closes m' all failed) s by
    obtain ⟨out, s', hout, hs', heq⟩ := hnext
    exact ⟨out, s', hout, ⟨hall', hcaptured', hs'⟩, heq⟩
  cases hcloses with
  | draining phase ahead =>
    by_cases hproducer : move = .producer
    · subst hproducer
      cases ht with
      | producer hstep =>
        rcases Machine.drain_step hstep h.uncancelled phase with ⟨hphase, -⟩ | ⟨hp, rfl⟩
        · have hhook : m.producer.hook? = none := by rcases phase with hp | hp <;> rw [hp] <;> rfl
          obtain ⟨out, s', hout, hs', heq⟩ :=
            h.ahead_step ahead (.producer hstep) hinner hkept hhook
          exact ⟨out, s', hout, .draining hphase hs', heq⟩
        · exact h.conclude_leads hall hcaptured hp ahead
      | world world => cases world
    · have hcall := Machine.sameCall_of_inner ht hinner hproducer
      have hhook : m.producer.hook? = none := by rcases phase with hp | hp <;> rw [hp] <;> rfl
      obtain ⟨out, s', hout, hs', heq⟩ := h.ahead_step ahead ht hinner hkept hhook
      exact ⟨out, s', hout, .draining (hcall.producer.symm ▸ phase) hs', heq⟩
  | @finishing a phase unfailed =>
    have hempty := h.toUndisturbed.empty_of_finishing phase
    obtain ⟨⟨hsetup, -, -⟩, p, hcarries, hgoes⟩ := Machine.hook_step ht hinner hempty phase
    obtain ⟨out, hout, hrest⟩ := hcarries.andThen (m.setup.finished m.items.length)
    refine ⟨out, _, hout, ?_, hrest⟩
    rw [← hsetup, ← hitems]
    cases p with
    | going a' => exact .finishing hgoes.1 unfailed
    | «over» outcome =>
      have hlast : m'.replies.getLast? = some (m'.setup.hookReply .finish outcome) := by
        rw [hgoes.2, List.getLast?_concat, hsetup]
      exact .answered hgoes.1 hlast (by rw [unfailed]; nofun)
  | answered idle last wins =>
    obtain ⟨hcall, hwork⟩ := sameWork_of_quiet (h.toUndisturbed.quiet_of_idle idle) ht hinner
    rw [← settled_eq hwork.scope hcall.items]
    exact Machine.leads_nothing hwork.arrivals
      (.answered (hcall.producer.trans idle) (hcall.replies ▸ last) wins)

/-- Whatever moves, the next part of what is ahead is carried out, which the lemmas before show for
each point of the plan. -/
theorem Single.step {plan : Plan α} (h : Single m all plan opened) (hf : Foretells all m s plan)
    (ht : Machine.Transition m move m') (hinner : move.isInner = true)
    (hkept : ∀ n, move ≠ .drop n) : m.Leads m' (Foretells all m' · plan) s := by
  cases plan with
  | none => exact hf.elim
  | opening items =>
    obtain ⟨hempty, hfirst, rfl⟩ := hf
    obtain ⟨-, idle, hnil⟩ := h.follows
    obtain ⟨-, hwork⟩ := sameWork_of_quiet ⟨idle, inFlight_nil hnil⟩ ht hinner
    refine Machine.leads_nothing hwork.arrivals
      ⟨hwork.captured.trans hempty, hwork.minted.trans hfirst, ?_⟩
    rw [hwork.setup, hwork.scope]
  | opened items => exact hf.opened_step h.follows ht hinner
  | feeding items =>
    obtain ⟨hahead, herror⟩ := hf
    obtain ⟨out, s', hout, hs', heq⟩ :=
      h.ahead_step hahead ht hinner hkept (hook?_of_feeding h.follows)
    exact ⟨out, s', hout, ⟨hs', fun e idle' hlast =>
      h.toUndisturbed.error_step ht hinner herror idle' hlast⟩,
      heq⟩
  | closing failed => exact h.closing_step hf ht hinner hkept
  | «over» reply =>
    obtain ⟨hcall, hwork⟩ := sameWork_of_quiet h.follows ht hinner
    exact Machine.leads_nothing hwork.arrivals (hf.trans (settled_eq hwork.scope hcall.items).symm)

/-! ## The plan goes on -/

theorem Foretells.ahead {r : Run α} {items : List (WorkItem α)}
    (h : Foretells all r.machine s r.plan) (hf : Follows r.machine r.plan)
    (hp : r.machine.producer = .idle) (plan : r.plan = .opened items ∨ r.plan = .feeding items)
    (last : r.lastReply = .answer (.ok ())) : r.machine.Ahead all s := by
  rcases plan with plan | plan
  · rw [plan] at h hf
    obtain ⟨hempty, hfirst, ⟨a, hhook, -⟩ | ⟨-, outcome, hlast, rfl⟩⟩ := h
    · rw [hp] at hhook
      cases hhook
    · have hreply := Option.some.inj (hlast.symm.trans (getLast?_of_lastReply last))
      cases outcome with
      | returned =>
        have hbetween : r.machine.Ahead all _ := .between hempty hfirst fun k w hw => by
          rw [hf.1] at hw
          cases hw
        rwa [hf.1] at hbetween
      | failed | panicked => cases hreply
  · rw [plan] at h
    exact h.1

theorem Foretells.close {r : Run α} {failed : Option ExecutionError} {reply : Reply}
    (h : Foretells all r.machine s (.closing failed)) (hp : r.machine.producer = .idle)
    (word : reply = r.lastReply ∧ (failed = none ∨ r.lastReply = .panic) ∨
      ∃ e, failed = some e ∧ reply = .answer (.error e)) : s = settled r.machine reply := by
  obtain ⟨-, -, hcloses⟩ := h
  cases hcloses with
  | draining phase =>
    rw [hp] at phase
    rcases phase with phase | phase <;> cases phase
  | finishing phase =>
    rw [hp] at phase
    cases phase
  | answered _ hlast wins =>
    rcases word with ⟨rfl, -⟩ | ⟨e, hfailed, rfl⟩
    · rw [lastReply_of_getLast? hlast]
    · rw [wins e hfailed]

/-- The calls that the producer makes, and the end of the bundle, put out nothing, so `Foretells`
holds of the same summary after them. -/
theorem Foretells.next {r r' : Run α} (h : Foretells all r.machine s r.plan)
    (hregular : r.Regular all) (hruns : r.machine.RunsAll) (hp : r.machine.producer = .idle)
    (hn : Next r r') : Foretells all r'.machine s r'.plan := by
  have hf := hregular.sound.follows
  cases hn with
  | start plan =>
    rw [plan] at h hf
    obtain ⟨hempty, hfirst, hs⟩ := h
    show Foretells all (r.machine.beginCall .start) s _
    rw [Machine.beginCall_start hf.1]
    exact ⟨hempty, hfirst, Or.inl ⟨_, rfl, hs⟩⟩
  | @submit item items plan last =>
    have hahead := h.ahead hf hp plan last
    show Foretells all (r.machine.beginCall (.submit item)) s _
    rw [Machine.beginCall_submit (hf.started hp plan last)]
    exact ⟨hahead.same ⟨rfl, rfl, rfl, rfl, rfl⟩ rfl nofun, nofun⟩
  | finish plan last =>
    have hahead := h.ahead hf hp plan last
    have hall := hruns.length_items (hregular.submitted.handed_all hf hp plan last)
    show Foretells all (r.machine.beginCall .finish) s _
    rw [Machine.beginCall_finish (hf.started hp plan last)]
    exact ⟨fun _ => hall, nofun,
      .draining (Or.inl rfl) (hahead.same ⟨rfl, rfl, rfl, rfl, rfl⟩ rfl nofun)⟩
  | @stop items e plan last =>
    rw [plan] at h hf
    obtain ⟨hahead, herror⟩ := h
    have hcaptured := herror e hp (getLast?_of_lastReply last)
    show Foretells all (r.machine.beginCall .finish) s _
    rw [Machine.beginCall_finish hf.1]
    refine ⟨nofun, fun e' he => ?_,
      .draining (Or.inl rfl) (hahead.same ⟨rfl, rfl, rfl, rfl, rfl⟩ rfl nofun)⟩
    cases he
    exact hcaptured
  | unopened plan last =>
    rw [plan] at h hf
    obtain ⟨-, -, ⟨a, hhook, -⟩ | ⟨-, outcome, hlast, rfl⟩⟩ := h
    · rw [hp] at hhook
      cases hhook
    · have hitems : r.machine.items = [] := by rw [Machine.items, hf.1]; rfl
      have hreply := lastReply_of_getLast? hlast
      show _ = settled r.machine r.lastReply
      rw [settled, hitems, hreply]
      cases outcome with
      | returned => exact absurd hreply last
      | failed | panicked => rfl
  | lost plan last => exact absurd last (hf.not_lost hp plan)
  | close plan word =>
    rw [plan] at h
    exact h.close hp word

/-! ## Whole bundles -/

/-- What the sink holds, followed by what is ahead by `Foretells`, is what the loop comes to. -/
structure Simulates (r : Run α) (all : List (WorkItem α)) (opened : Bool) (total : Summary α) :
    Prop where
  regular : r.Regular all
  single : r.machine.gate.capacity.count = 1
  runs : r.machine.RunsAll
  supplied : r.machine.Supplied opened
  ahead : ∃ s, Foretells all r.machine s r.plan ∧ total = s.after r.machine.output

namespace Simulates

theorem new {setup : Setup α} {scope : Scope} (hsingle : setup.parallelism.count = 1)
    (hruns : ∀ n, (setup.backend.receive n).verdict = .run) :
    (Run.bundle (.new setup scope) all).Simulates all opened (setup.sequential scope all) where
  regular := .new fun n => Or.inl (hruns n)
  single := hsingle
  runs := hruns
  supplied := ⟨fun _ => rfl, fun _ _ _ hw _ => by cases hw⟩
  ahead := ⟨_, ⟨rfl, rfl, rfl⟩, rfl⟩

variable {r r' : Run α}

theorem next (h : r.Simulates all opened total) (hp : r.machine.producer = .idle) (hn : Next r r')
    (hregular : r'.Regular all) : r'.Simulates all opened total := by
  obtain ⟨s, hs, htotal⟩ := h.ahead
  have hs' := hs.next h.regular h.runs hp hn
  rcases next_machine hn with heq | ⟨c, heq⟩
  · refine ⟨hregular, ?_, ?_, ?_, s, hs', ?_⟩
    all_goals rw [heq]
    · exact h.single
    · exact h.runs
    · exact h.supplied
    · exact htotal
  · have ht := Machine.transition_of_beginCall c hp
    have hwork := Machine.sameWork_beginCall r.machine c
    refine ⟨hregular, ?_, fun n => ?_, ?_, s, hs', ?_⟩
    all_goals rw [heq]
    · rw [beginCall_gate]
      exact h.single
    · rw [Machine.verdict, hwork.setup]
      exact h.runs n
    · refine h.supplied.step (Machine.codeStep h.regular.judged ht) ?_ fun item hi => ?_
      · rintro rfl hmove
        cases hmove
      · cases hp.symm.trans hi
    · rw [Machine.output, hwork.arrivals]
      exact htotal

theorem step (h : r.Simulates all opened total) (hmove : move.IsSteady opened)
    (hitems : ∀ item ∈ all, ∀ action ∈ item.script, action.IsSupplied opened)
    (hstep : r.step move = some r') : r'.Simulates all opened total := by
  have hregular := h.regular.step hmove.inner hmove.kept hstep
  rcases step_cases hstep with ⟨-, hp, hproceed⟩ | ⟨m', hm', rfl⟩
  · exact h.next hp (next_of_proceed hproceed) hregular
  · have ht := Machine.transition_of_step hm'
    have hsingle : Single r.machine all r.plan opened :=
      ⟨h.regular.undisturbed h.runs, h.single, h.supplied⟩
    have hsetup : m'.setup = r.machine.setup := (Machine.cellStep ht).2.setup
    obtain ⟨s, hs, htotal⟩ := h.ahead
    obtain ⟨out, s', hout, hs', heq⟩ := hsingle.step hs ht hmove.inner hmove.kept
    refine ⟨hregular, ?_, fun n => ?_, ?_, s', hs', ?_⟩
    · rw [(Machine.ticketStep ht).capacity_eq]
      exact h.single
    · rw [Machine.verdict, hsetup]
      exact h.runs n
    · exact h.supplied.step (Machine.codeStep h.regular.judged ht) hmove.supply
        fun item hp => hitems item (h.regular.mem hp)
    · rw [htotal, heq, Summary.after_after, hout]

end Simulates

theorem simulates {setup : Setup α} {scope : Scope} {moves : List (Move α)} {r : Run α}
    (hsingle : setup.parallelism.count = 1)
    (hruns : ∀ n, (setup.backend.receive n).verdict = .run)
    (hitems : ∀ item ∈ all, ∀ action ∈ item.script, action.IsSupplied opened)
    (hmoves : ∀ move ∈ moves, move.IsSteady opened)
    (hrun : (Run.bundle (.new setup scope) all).follow moves = some r) :
    r.Simulates all opened (setup.sequential scope all) :=
  follow_invariant (I := fun r => r.Simulates all opened (setup.sequential scope all))
    (fun h hmove hstep => h.step hmove hitems hstep) (.new hsingle hruns) hmoves hrun

/-- With a single ticket, and a backend that runs every task, a bundle is a loop: when it has a
result, this is the reply that the loop gives; the sink has recorded the same in the same order, the
scope is the same, and just the items that the loop runs were processed. And if its code waits for
nobody else, then it comes to a result: it takes a bounded number of steps, and never gets stuck. -/
theorem sequential_of_single {setup : Setup α} {scope : Scope} {items : List (WorkItem α)}
    {moves : List (Move α)} {r : Run α} (hsingle : setup.parallelism.count = 1)
    (hruns : ∀ n, (setup.backend.receive n).verdict = .run)
    (hitems : ∀ item ∈ items, ∀ action ∈ item.script, action.IsSupplied opened)
    (hmoves : ∀ move ∈ moves, move.IsSteady opened)
    (hrun : (Run.bundle (.new setup scope) items).follow moves = some r) :
    (∀ reply, r.result? = some reply →
      setup.sequential scope items =
          { records := r.machine.output, scope := r.machine.scope,
            processed := r.machine.items.length, reply } ∧
        r.machine.items = items.take r.machine.items.length ∧
        ∀ n, r.machine.Processed n ↔ n < r.machine.items.length) ∧
      (setup.IsPrompt items → r.CanEnd opened ∧
        moves.countP Move.isStep ≤ (Run.bundle (.new setup scope) items).work) := by
  refine ⟨fun reply hresult => ?_, fun hprompt => terminates hprompt hmoves hrun⟩
  have hsimulates := simulates hsingle hruns hitems hmoves hrun
  have hregular := hsimulates.regular
  have hplan := plan_of_result? hresult
  have hsubmitted := hregular.submitted
  rw [hplan] at hsubmitted
  obtain ⟨k, hhanded, -⟩ := hsubmitted
  obtain rfl := hsimulates.runs.length_items hhanded
  obtain ⟨s, hs, htotal⟩ := hsimulates.ahead
  rw [hplan] at hs
  subst hs
  refine ⟨?_, ?_, Machine.processed_iff hregular.barred (hregular.sound.quiet hplan) hhanded⟩
  · rw [htotal, Summary.after, settled, List.append_nil]
  · rw [← hhanded.first, List.take_length]

/-- A single ticket, and hooks that emit. -/
def loopSetup : Setup Nat :=
  { processor :=
      { name := "loop"
        startHook := [.emit (.outputAt (.given 1) ⟨0⟩)]
        finishHook := [.emit (.outputAt (.given 9) ⟨0⟩)] }
    parallelism := .single }

/-- The second item fails. -/
def loopItems : List (WorkItem Nat) :=
  [{ value := 7, script := [.emit (.output (.given 7)), .add "seen" .sum 7] },
    { value := 8, script := [.fail (.user "boom" [])] },
    { value := 9, script := [.emit (.output (.given 9))] }]

def loopMoves : List (Move Nat) :=
  List.replicate 11 .producer ++ List.replicate 8 (.worker 0) ++ List.replicate 5 .producer ++
    List.replicate 4 (.worker 1) ++ List.replicate 6 .producer

theorem sequential_of_single_boom :
    ∃ r, (Run.bundle (.new loopSetup) loopItems).follow loopMoves = some r ∧
      r.result? = some (.answer (.error (.workItem 1 0 (.user "boom" [])))) ∧
      loopSetup.sequential {} loopItems =
        { records := r.machine.output, scope := r.machine.scope, processed := 2,
          reply := .answer (.error (.workItem 1 0 (.user "boom" []))) } ∧
      r.machine.Processed 1 ∧ ¬ r.machine.Processed 2 := by
  have hruns : ∀ n, (loopSetup.backend.receive n).verdict = .run := fun _ => rfl
  have hitems : ∀ item ∈ loopItems, ∀ action ∈ item.script, action.IsSupplied false := by
    simp [loopItems, Action.IsSupplied]
  have hmoves : ∀ move ∈ loopMoves, move.IsSteady false := by
    simp only [loopMoves, List.mem_append, List.mem_replicate]
    rintro move ((((⟨-, rfl⟩ | ⟨-, rfl⟩) | ⟨-, rfl⟩) | ⟨-, rfl⟩) | ⟨-, rfl⟩)
    all_goals exact ⟨rfl, nofun, nofun⟩
  have hresult : ((Run.bundle (.new loopSetup) loopItems).follow loopMoves).map
      (fun r => (r.result?, r.machine.items.length)) =
        some (some (.answer (.error (.workItem 1 0 (.user "boom" [])))), 2) := by
    decide +kernel
  obtain ⟨r, hrun, hresult⟩ := Option.map_eq_some_iff.mp hresult
  obtain ⟨hresult, hlength⟩ := Prod.mk.inj hresult
  obtain ⟨hloop, -, hprocessed⟩ :=
    (sequential_of_single rfl hruns hitems hmoves hrun).1 _ hresult
  rw [hlength] at hloop
  refine ⟨r, hrun, hresult, hloop, (hprocessed 1).mpr ?_, fun h => ?_⟩
  · rw [hlength]
    decide
  · have hlt := (hprocessed 2).mp h
    rw [hlength] at hlt
    exact absurd hlt (by decide)

end Run

end WorkBundle
