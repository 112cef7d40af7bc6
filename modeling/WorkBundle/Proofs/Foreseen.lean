import WorkBundle.Proofs.Hooks
import WorkBundle.Proofs.Settled

/-!
# The upshot of every item and hook

Where every item is settled, the workers come to the upshots of their items and the hooks to theirs,
whatever the schedule (`Machine.Foreseen`): the uses of the aggregators that were made, and those
that are still ahead, are in some order those of the items handed over and of the hooks begun; and a
worker whose code is over has ended as its item does. So the captured failure is that of an item
which fails (`Traced`).
-/

set_option autoImplicit false

namespace WorkBundle

variable {α : Type}

/-- The outcome that this ending stands for, where there is one. A task that ends `unstarted` has
none, and a backend that runs every task lets none end so. -/
def Ending.outcome? : Ending → Option Outcome
  | .returned => some .returned
  | .failed f => some (.failed f.cause)
  | .lost => some .panicked
  | .unstarted => none

theorem Ending.Tells.item {e : Ending} {n : Nat} {f : Failure} (h : e.Tells n f) : f.item = n := by
  cases e with
  | failed => exact h.2
  | lost => exact h.1
  | returned | unstarted => exact h.elim

theorem Ending.Tells.failure? {e : Ending} {n : Nat} {f : Failure} {outcome : Outcome}
    (h : e.Tells n f) (houtcome : e.outcome? = some outcome) :
    outcome.failure? n f.identity = some f := by
  cases e with
  | failed g =>
    obtain ⟨rfl, rfl⟩ := h
    cases houtcome
    rfl
  | lost =>
    obtain ⟨item, identity, cause⟩ := f
    obtain ⟨hitem, hcause⟩ := h
    cases houtcome
    simp only at hitem hcause
    simp only [Outcome.failure?, hitem, hcause]
  | returned | unstarted => exact h.elim

theorem Outcome.phase_fate? (n identity : Nat) (outcome : Outcome) :
    ∃ e, (outcome.phase n identity : WorkerPhase α).fate? = some e ∧
      e.outcome? = some outcome := by
  cases outcome <;> exact ⟨_, rfl, rfl⟩

/-- The code of the worker is settled, and comes to the outcome of its item. The first is
`IsSettled` for what is left of the script; the second says that what is left has not changed the
upshot of the whole. -/
structure Worker.AsForeseen (intake : Intake α) (scope : Scope) (w : Worker α) : Prop where
  code : ∀ a, w.code? = some a → a.IsSettled intake (some w.item.toElement) scope ∧
    (a.foreseen intake (some w.item.toElement) scope).outcome = (w.item.effect intake scope).outcome
  fate : ∀ e, w.phase.fate? = some e → e.outcome? = some (w.item.effect intake scope).outcome

/-- The uses of the aggregators that the worker has ahead of it. What it has used is not kept with
the worker but in the scope, so `Foreseen` adds the two up over all workers. -/
def Worker.usesAhead (intake : Intake α) (scope : Scope) (w : Worker α) : List Use :=
  match w.code? with
  | none => []
  | some a => (a.foreseen intake (some w.item.toElement) scope).uses

namespace Machine

def hookUses (m : Machine α) (scope : Scope) : List Use :=
  match m.producer.hook? with
  | none => []
  | some (_, a) => (a.foreseen m.setup.intake none scope).uses

def usesAhead (m : Machine α) (scope : Scope) : List Use :=
  m.hookUses scope ++ m.workers.flatMap (·.usesAhead m.setup.intake scope)

/-- All uses that the items handed over come to, by their `effect` on the scope of the beginning. -/
def itemUses (m : Machine α) (scope : Scope) : List Use :=
  m.items.flatMap fun item => (item.effect m.setup.intake scope).uses

/-- All code comes to the upshot foreseen, and the uses made so far together with `usesAhead` are
those of the hooks in `begun` and of the items. The sum is a permutation: the schedule decides the
order, and nothing else. -/
structure Foreseen (m : Machine α) (scope : Scope) (opened : Bool) (begun : List Use) : Prop where
  supplied : m.Supplied opened
  workers : ∀ (n : Nat) (w : Worker α), m.workers[n]? = some w → w.AsForeseen m.setup.intake scope
  hook : ∀ hook a, m.producer.hook? = some (hook, a) → a.IsSettled m.setup.intake none scope ∧
    (a.foreseen m.setup.intake none scope).outcome =
      (m.setup.processor.effect m.setup.intake scope hook).outcome
  used : ∃ done, m.scope = scope.useAll done ∧
    (done ++ m.usesAhead scope).Perm (begun ++ m.itemUses scope)

def BeginsFinish (m m' : Machine α) : Prop :=
  m.producer = .drained ∧ m'.producer = .finishing { script := m.setup.processor.finishHook }

namespace Foreseen

variable {m m' m₁ : Machine α} {move : Move α} {scope : Scope} {opened : Bool} {begun : List Use}

theorem facts (h : m.Foreseen scope opened begun) : m.scope.SameFacts scope := by
  obtain ⟨done, hscope, -⟩ := h.used
  rw [hscope]
  exact Scope.SameFacts.useAll ⟨rfl, rfl⟩ done

theorem new (setup : Setup α) (scope : Scope) :
    (Machine.new setup scope).Foreseen scope opened [] where
  supplied := ⟨fun _ => rfl, fun _ _ _ hw _ => by cases hw⟩
  workers := fun _ _ hw => by cases hw
  hook := fun _ _ hhook => by cases hhook
  used := ⟨[], rfl, .refl _⟩

theorem usesAhead_congr (hsetup : m'.setup = m.setup) (hworkers : m'.workers = m.workers)
    (hhook : m'.producer.hook? = m.producer.hook?) : m'.usesAhead scope = m.usesAhead scope := by
  simp only [usesAhead, hookUses, hsetup, hworkers, hhook]

theorem itemUses_congr (hsetup : m'.setup = m.setup) (hitems : m'.items = m.items) :
    m'.itemUses scope = m.itemUses scope := by
  simp only [itemUses, hsetup, hitems]

theorem same (h : m.Foreseen scope opened begun) (hsupplied : m'.Supplied opened)
    (hsetup : m'.setup = m.setup) (hscope : m'.scope = m.scope) (hworkers : m'.workers = m.workers)
    (hhook : m'.producer.hook? = m.producer.hook?) : m'.Foreseen scope opened begun := by
  have hitems : m'.items = m.items := by rw [items, hworkers, items]
  refine ⟨hsupplied, ?_, ?_, ?_⟩
  · rw [hsetup, hworkers]
    exact h.workers
  · rw [hsetup, hhook]
    exact h.hook
  · rw [hscope, usesAhead_congr hsetup hworkers hhook, itemUses_congr hsetup hitems]
    exact h.used

theorem begins (h : m.Foreseen scope opened begun) (hsupplied : m'.Supplied opened)
    (hsetup : m'.setup = m.setup) (hscope : m'.scope = m.scope) (hworkers : m'.workers = m.workers)
    (hnone : m.producer.hook? = none) {hook : Hook}
    (hhook : m'.producer.hook? = some (hook, { script := m.setup.processor.script hook }))
    (hscript : Script.IsSettled m.setup.intake none scope (m.setup.processor.script hook)) :
    m'.Foreseen scope opened (begun ++ (m.setup.processor.effect m.setup.intake scope hook).uses) := by
  obtain ⟨hsettled, hforeseen⟩ := hscript.activity
  obtain ⟨huses, houtcome⟩ := Prod.mk.inj hforeseen
  have hitems : m'.items = m.items := by rw [items, hworkers, items]
  refine ⟨hsupplied, ?_, ?_, ?_⟩
  · rw [hsetup, hworkers]
    exact h.workers
  · intro hook' a ha
    rw [hhook] at ha
    cases ha
    rw [hsetup]
    exact ⟨hsettled, houtcome⟩
  · obtain ⟨done, hdone, hperm⟩ := h.used
    refine ⟨done, hscope.trans hdone, ?_⟩
    have hahead : m'.usesAhead scope =
        (m.setup.processor.effect m.setup.intake scope hook).uses ++ m.usesAhead scope := by
      simp only [usesAhead, hookUses, hhook, hnone, hsetup, hworkers, List.nil_append]
      exact congrArg (· ++ _) huses
    rw [hahead, itemUses_congr hsetup hitems, List.append_assoc]
    exact (List.perm_append_comm_assoc _ _ _).trans
      ((hperm.append_left _).trans (List.perm_append_comm_assoc _ _ _))

theorem more (h : m.Foreseen scope opened begun) (hsupplied : m'.Supplied opened)
    (hsetup : m'.setup = m.setup) (hscope : m'.scope = m.scope)
    (hhook : m'.producer.hook? = m.producer.hook?) {item : WorkItem α}
    (hworkers : m'.workers = m.workers ++ [⟨item, .queued⟩])
    (hitem : item.IsSettled m.setup.intake scope) : m'.Foreseen scope opened begun := by
  obtain ⟨hsettled, hforeseen⟩ := Script.IsSettled.activity hitem
  obtain ⟨huses, houtcome⟩ := Prod.mk.inj hforeseen
  refine ⟨hsupplied, ?_, ?_, ?_⟩
  · intro n w hw
    rw [hworkers] at hw
    rw [hsetup]
    rcases getElem?_concat_cases hw with ⟨-, rfl⟩ | hw
    · refine ⟨fun a ha => ?_, nofun⟩
      cases ha
      exact ⟨hsettled, houtcome⟩
    · exact h.workers n w hw
  · rw [hsetup, hhook]
    exact h.hook
  · obtain ⟨done, hdone, hperm⟩ := h.used
    refine ⟨done, hscope.trans hdone, ?_⟩
    have hnew : (⟨item, .queued⟩ : Worker α).usesAhead m.setup.intake scope =
        (item.effect m.setup.intake scope).uses := huses
    have hahead : m'.usesAhead scope =
        m.usesAhead scope ++ (item.effect m.setup.intake scope).uses := by
      simp only [usesAhead, hookUses, hhook, hsetup, hworkers, List.flatMap_append, List.append_assoc,
        List.flatMap_cons, List.flatMap_nil, List.append_nil, hnew]
    have hall : m'.itemUses scope =
        m.itemUses scope ++ (item.effect m.setup.intake scope).uses := by
      simp [itemUses, items, hsetup, hworkers]
    rw [hahead, hall, ← List.append_assoc, ← List.append_assoc]
    exact hperm.append_right _

theorem change (h : m.Foreseen scope opened begun) (hsupplied : m'.Supplied opened)
    (hsetup : m'.setup = m.setup) (hhook : m'.producer.hook? = m.producer.hook?) {n : Nat}
    {w : Worker α} {p : WorkerPhase α} {us : List Use} (hw : m.workers[n]? = some w)
    (hworkers : m'.workers = (m.setPhase n p).workers) (hscope : m'.scope = m.scope.useAll us)
    (hahead : w.usesAhead m.setup.intake scope =
      us ++ ({ w with phase := p } : Worker α).usesAhead m.setup.intake scope)
    (hforeseen : ({ w with phase := p } : Worker α).AsForeseen m.setup.intake scope) :
    m'.Foreseen scope opened begun := by
  refine ⟨hsupplied, ?_, ?_, ?_⟩
  · intro k v hv
    rw [hworkers] at hv
    rw [hsetup]
    rcases worker_of_setPhase hw hv with ⟨-, rfl⟩ | ⟨-, hv⟩
    · exact hforeseen
    · exact h.workers k v hv
  · rw [hsetup, hhook]
    exact h.hook
  · have hitems : m'.items = m.items := by rw [items, hworkers, items_setPhase, items]
    obtain ⟨done, hdone, hperm⟩ := h.used
    refine ⟨done ++ us, by rw [hscope, hdone, Scope.useAll_append], ?_⟩
    rw [itemUses_congr hsetup hitems]
    have hmoved := flatMap_modify_perm (f := (·.usesAhead m.setup.intake scope))
      (g := fun w : Worker α => { w with phase := p }) hw hahead
    have hhooks : m'.hookUses scope = m.hookUses scope := by simp only [hookUses, hhook, hsetup]
    rw [List.perm_iff_count] at hperm hmoved ⊢
    intro u
    have hperm := hperm u
    have hmoved := hmoved u
    simp only [usesAhead, hhooks, hworkers, setPhase_workers, hsetup, List.count_append] at *
    omega

theorem aside (h : m.Foreseen scope opened begun) (hsupplied : m'.Supplied opened)
    (hsetup : m'.setup = m.setup) (hscope : m'.scope = m.scope)
    (hhook : m'.producer.hook? = m.producer.hook?) {n : Nat} {w : Worker α} {p : WorkerPhase α}
    (hw : m.workers[n]? = some w) (hworkers : m'.workers = (m.setPhase n p).workers)
    (hcode : p.code? w.item = w.code?) (hfate : p.fate? = w.phase.fate?) :
    m'.Foreseen scope opened begun := by
  have hcode' : ({ w with phase := p } : Worker α).code? = w.code? := hcode
  have hscope' : m'.scope = m.scope.useAll [] := hscope
  refine h.change hsupplied hsetup hhook hw hworkers hscope' ?_ ⟨?_, ?_⟩
  · rw [Worker.usesAhead, Worker.usesAhead, hcode']
    rfl
  · rw [hcode']
    exact (h.workers n w hw).code
  · rw [hfate]
    exact (h.workers n w hw).fate

theorem worker (h : m.Foreseen scope opened begun) (hsupplied : m'.Supplied opened)
    (hsetup : m'.setup = m.setup) (hhook : m'.producer.hook? = m.producer.hook?) {n identity : Nat}
    {w : Worker α} {a : Activity α} {p : Progress α} (hw : m.workers[n]? = some w)
    (hphase : w.phase = .working a) (hact : m.act (.worker n w.item) a = (m₁, p))
    (hscope : m'.scope = m₁.scope)
    (hworkers : m'.workers = (m.setPhase n (p.phase n identity)).workers) :
    m'.Foreseen scope opened begun := by
  have hcode : w.code? = some a := by rw [Worker.code?, hphase]; rfl
  have hcode' : ({ w with phase := p.phase n identity } : Worker α).code? = p.code? :=
    Progress.phase_code? w.item n identity p
  obtain ⟨hsettled, houtcome⟩ := (h.workers n w hw).code a hcode
  have hthrough := (actStep hact h.supplied.supply fun _ => h.supplied.code n w a hw hcode).goesThrough
  obtain ⟨us, hus, hupshot, hrest⟩ := hthrough.upshot h.facts hsettled
  obtain ⟨huses, houtcome'⟩ := Prod.mk.inj hupshot
  refine h.change hsupplied hsetup hhook hw hworkers (hscope.trans hus) ?_ ⟨?_, ?_⟩
  · rw [Worker.usesAhead, hcode, Worker.usesAhead, hcode']
    refine huses.trans (congrArg (us ++ ·) ?_)
    cases p <;> rfl
  · intro b hb
    rw [hcode'] at hb
    cases p with
    | going =>
      cases hb
      exact ⟨hrest b rfl, houtcome'.symm.trans houtcome⟩
    | «over» => cases hb
  · intro e he
    cases p with
    | going => cases he
    | «over» outcome =>
      obtain ⟨e', he', ho⟩ := outcome.phase_fate? (α := α) n identity
      obtain rfl : e' = e := Option.some.inj (he'.symm.trans he)
      rw [ho]
      exact congrArg some (houtcome'.symm.trans houtcome)

theorem hook_goes (h : m.Foreseen scope opened begun) (hsupplied : m'.Supplied opened)
    (hsetup : m'.setup = m.setup) {hook : Hook} {a : Activity α} {p : Progress α}
    (hphase : m.producer.hook? = some (hook, a)) (hact : m.act (.hook hook) a = (m₁, p))
    (hscope : m'.scope = m₁.scope) (hworkers : m'.workers = m.workers)
    (hnext : m'.producer.hook? = p.code?.map (hook, ·)) :
    m'.Foreseen scope opened begun := by
  have hthrough : GoesThrough m m₁ (.hook hook) a p :=
    (actStep hact h.supplied.supply nofun).goesThrough
  obtain ⟨hsettled, hsame⟩ := h.hook hook a hphase
  obtain ⟨us, hus, hupshot, hrest⟩ := hthrough.upshot h.facts hsettled
  obtain ⟨huses, houtcome⟩ := Prod.mk.inj hupshot
  refine ⟨hsupplied, ?_, ?_, ?_⟩
  · rw [hsetup, hworkers]
    exact h.workers
  · intro hook' b hb
    rw [hnext] at hb
    rw [hsetup]
    cases p with
    | going =>
      cases hb
      exact ⟨hrest b rfl, houtcome.symm.trans hsame⟩
    | «over» => cases hb
  · have hitems : m'.items = m.items := by rw [items, hworkers, items]
    obtain ⟨done, hdone, hperm⟩ := h.used
    refine ⟨done ++ us, by rw [hscope, hus, hdone, Scope.useAll_append], ?_⟩
    have hahead : m.usesAhead scope = us ++ m'.usesAhead scope := by
      simp only [usesAhead, hookUses, hphase, hnext, hsetup, hworkers]
      rw [← List.append_assoc]
      refine congrArg (· ++ _) (huses.trans (congrArg (us ++ ·) ?_))
      cases p <;> rfl
    rw [itemUses_congr hsetup hitems, List.append_assoc, ← hahead]
    exact hperm

/-- Whatever moves, the upshots stay as `Foreseen`. The cases are those of `CodeStep`, which has
only the steps that run code or begin it. -/
theorem step (h : m.Foreseen scope opened begun) (hs : CodeStep m m' move)
    (hsetup : m'.setup = m.setup) (hmove : move.IsSteady opened) (hruns : m.RunsAll)
    (hitem : ∀ item, m.producer = .handing item →
      item.IsSettled m.setup.intake scope ∧ ∀ action ∈ item.script, action.IsSupplied opened)
    (hnot : ¬ m.BeginsFinish m') : m'.Foreseen scope opened begun := by
  have hsupplied := h.supplied.step hs hmove.supply fun item hp => (hitem item hp).2
  have hhook (silent : m.Silent m' move) : m'.producer.hook? = m.producer.hook? :=
    (silent.hook hmove.inner).resolve_right hnot
  cases hs with
  | still silent workers => exact h.same hsupplied hsetup silent.scope workers (hhook silent)
  | @more item silent phase workers =>
    exact h.more hsupplied hsetup silent.scope (hhook silent) workers (hitem item phase).1
  | @aside n w p silent worker workers code =>
    rcases code with ⟨hcode, hfate⟩ | ⟨-, hdropped | hrefused⟩
    · exact h.aside hsupplied hsetup silent.scope (hhook silent) worker workers hcode hfate
    · exact absurd hdropped (hmove.kept n)
    · exact absurd (hruns n) hrefused
  | worker hw hphase hact traces workers producer =>
    exact h.worker hsupplied hsetup (by rw [producer]) hw hphase hact traces.scope workers
  | hook hphase hact traces workers next =>
    exact h.hook_goes hsupplied hsetup hphase hact traces.scope workers next

theorem outcome_of_over (h : m.Foreseen scope opened begun) {hook : Hook} {a : Activity α}
    {outcome : Outcome} (hphase : m.producer.hook? = some (hook, a))
    (hcarries : CarriesOut m m' (.hook hook) a (.over outcome)) :
    outcome = (m.setup.processor.effect m.setup.intake scope hook).outcome := by
  obtain ⟨out, us, -, heffect⟩ := hcarries
  obtain ⟨hsettled, hsame⟩ := h.hook hook a hphase
  have halone : (a.effect m.setup.intake none m.scope).outcome =
      (a.foreseen m.setup.intake none scope).outcome :=
    congrArg Prod.snd (hsettled _ fun k => h.facts.along none a.script k)
  rw [← hsame, ← halone]
  exact (congrArg Effect.outcome heffect).symm

end Foreseen

/-! ## The captured failure -/

/-- The captured failure tells of a worker that has its `fate?`. It excludes refusals, so it holds
only where the backend runs every task. -/
def Traced (m : Machine α) : Prop :=
  ∀ f, m.cell.captured = some f →
    ∃ w e, m.workers[f.item]? = some w ∧ w.phase.fate? = some e ∧ e.Tells f.item f

theorem Traced.step {m m' : Machine α} {move : Move α} (h : m.Traced) (ht : Transition m move m')
    (ha : m.Accounted) (hj : m.Judged m.producer) (hruns : m.RunsAll) : m'.Traced := by
  intro f hf
  -- Whoever has a fate keeps it.
  have hkeeps {n : Nat} {w : Worker α} {e : Ending} (hw : m.workers[n]? = some w)
      (he : w.phase.fate? = some e) :
      ∃ w', m'.workers[n]? = some w' ∧ w'.phase.fate? = some e := by
    obtain ⟨w', hw', -, he'⟩ := worker_step PhaseStep.fate_eq ht hw he
    exact ⟨w', hw', he'⟩
  cases (cellStep ht).1 with
  | same cell =>
    obtain ⟨w, e, hw, he, htells⟩ := h f (cell.symm.trans hf)
    obtain ⟨w', hw', he'⟩ := hkeeps hw he
    exact ⟨w', e, hw', he', htells⟩
  | @worker n w g e _ hw hphase full =>
    obtain rfl : g = f := Option.some.inj (full.symm.trans hf)
    have haccounts := ha n w hw
    rw [hphase] at haccounts
    have htells : e.Tells n g := haccounts
    obtain rfl := htells.item
    obtain ⟨w', hw', he'⟩ := hkeeps hw (by rw [hphase]; rfl)
    exact ⟨w', e, hw', he', htells⟩
  | @refusal g _ phase =>
    rw [phase] at hj
    cases hj.1.symm.trans (hruns g.item)

end Machine

end WorkBundle
