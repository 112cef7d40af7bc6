import WorkBundle.Proofs.Transition

/-!
# What code comes to

A script that runs to its end has an effect: the sink records some emissions, the aggregators are
used, and the code ends with an outcome. `executeIn` reads the effect off the script, action by
action, where each action meets a scope of its own, since others may use the aggregators between two
actions. Alone, code meets just the scopes that it makes itself (`execute`).

`Machine.Acted` says what one step of code is, and `Machine.Performed` how an action begins; they
are `Machine.act` and `Machine.perform` in the form that every later module splits on. Where only
the sink and the scope matter, `Machine.ActStep` is enough. An activity in the middle of its script
has the rest of its effect ahead of it, and a step carries out exactly the first part of that:
whatever scopes the code will meet (`Machine.GoesThrough`), and alone (`Machine.CarriesOut`).
-/

set_option autoImplicit false

namespace WorkBundle

variable {α : Type}

/-! ## Uses of aggregators -/

/-- A use of the aggregator of a name. Where `value` is `none` it is only asked for, which still
counts, since the first request registers it. -/
structure Use where
  name : String
  combiner : Combiner
  value : Option Int64
  deriving DecidableEq, Repr

namespace Scope

def use (s : Scope) (u : Use) : Scope :=
  match u.value with
  | some v => s.addTo u.name u.combiner v
  | none => (s.aggregatorOf u.name u.combiner).2

def useAll (s : Scope) (uses : List Use) : Scope := uses.foldl use s

@[simp] theorem useAll_nil (s : Scope) : s.useAll [] = s := rfl

@[simp] theorem useAll_append (s : Scope) (us vs : List Use) :
    s.useAll (us ++ vs) = (s.useAll us).useAll vs := List.foldl_append

theorem use_facts (s : Scope) (u : Use) :
    (s.use u).options = s.options ∧ (s.use u).sideInputs = s.sideInputs := by
  unfold use
  split <;> exact ⟨rfl, rfl⟩

theorem useAll_facts (s : Scope) (us : List Use) :
    (s.useAll us).options = s.options ∧ (s.useAll us).sideInputs = s.sideInputs := by
  induction us generalizing s with
  | nil => exact ⟨rfl, rfl⟩
  | cons u us ih =>
    obtain ⟨hoptions, hsides⟩ := ih (s.use u)
    obtain ⟨hoptions', hsides'⟩ := s.use_facts u
    exact ⟨hoptions.trans hoptions', hsides.trans hsides'⟩

end Scope

def Read.uses : Read → List Use
  | .aggregator name combiner => [⟨name, combiner, none⟩]
  | _ => []

theorem Scope.read_scope (s : Scope) (element : Option (Element α)) (question : Read) :
    (s.read element question).2 = s.useAll question.uses := by
  cases question <;> rfl

/-! ## Effects of scripts -/

/-- What code comes to when it runs to its end: what the sink records, how it uses the aggregators,
in order, and its outcome. -/
structure Effect (α : Type) where
  records : List (Emission (Output α)) := []
  uses : List Use := []
  outcome : Outcome

namespace Effect

def after (out : List (Emission (Output α))) (us : List Use) (e : Effect α) : Effect α :=
  { e with records := out ++ e.records, uses := us ++ e.uses }

@[simp] theorem after_nil (e : Effect α) : e.after [] [] = e := rfl

/-- The effect of code that has an emission to finish, by these steps. A sink that panics takes the
code along, with all that would have followed. -/
def taking (e : Effect α) : List (Delivery α) → Effect α
  | [] => e
  | .keep emission :: steps => (e.taking steps).after [emission] []
  | .crash :: _ => { outcome := .panicked }
  | _ :: steps => e.taking steps

end Effect

def Delivery.recorded : Delivery α → List (Emission (Output α))
  | .keep e => [e]
  | _ => []

theorem Effect.taking_cons (e : Effect α) {d : Delivery α} (h : d ≠ .crash)
    (steps : List (Delivery α)) : e.taking (d :: steps) = (e.taking steps).after d.recorded [] := by
  cases d with
  | crash => exact absurd rfl h
  | _ => rfl

/-- How an action uses the aggregators. A question is asked only where its answer can be emitted
(`emissionTime?`), so a hook that names no time registers nothing. -/
def Action.uses (element : Option (Element α)) : Action α → List Use
  | .add name combiner v => [⟨name, combiner, some v⟩]
  | .report question named =>
    if (emissionTime? element named).isSome then question.uses else []
  | _ => []

/-- What an action does to its code in this scope: it ends it, or it may emit. The supply of permits
is open; that it is so is a hypothesis of `actStep`. -/
def Action.does (element : Option (Element α)) (scope : Scope) :
    Action α → Except Outcome (Option (Emission (Output α)))
  | .emit call =>
    match call.emission? (element.map (·.timestamp)) with
    | some e => .ok (some e)
    | none => .error (.failed .noSuchCall)
  | .report question named =>
    match emissionTime? element named with
    | none => .error (.failed .noSuchCall)
    | some time =>
      match (scope.read element question).1 with
      | some r => .ok (some (.main (.reading r) time))
      | none => .error (.failed .noSuchCall)
  | .permit => if element.isSome then .ok none else .error (.failed .noSuchCall)
  | .fail cause => .error (.failed cause)
  | .panic => .error .panicked
  | _ => .ok none

def Intake.deliveries (intake : Intake α) : Option (Emission (Output α)) → List (Delivery α)
  | none => []
  | some e => intake.deliver e

/-- The effect of a script of which each action meets the next one of these scopes. Others may use
the aggregators between two actions, which is why there is a scope for each and not one for all. -/
def executeIn (intake : Intake α) (element : Option (Element α)) :
    Script α → (Nat → Scope) → Effect α
  | [], _ => { outcome := .returned }
  | action :: rest, scopes =>
    let uses := action.uses element
    match action.does element (scopes 0) with
    | .error outcome => { uses, outcome }
    | .ok e =>
      ((executeIn intake element rest fun k => scopes (k + 1)).taking (intake.deliveries e)).after
        [] uses

section

variable {intake : Intake α} {element : Option (Element α)} {action : Action α} {rest : Script α}
  {scopes : Nat → Scope}

theorem executeIn_ok {e : Option (Emission (Output α))}
    (h : action.does element (scopes 0) = .ok e) :
    executeIn intake element (action :: rest) scopes =
      ((executeIn intake element rest fun k => scopes (k + 1)).taking (intake.deliveries e)).after
        [] (action.uses element) := by
  simp only [executeIn, h]

theorem executeIn_error {outcome : Outcome}
    (h : action.does element (scopes 0) = .error outcome) :
    executeIn intake element (action :: rest) scopes =
      { uses := action.uses element, outcome } := by
  simp only [executeIn, h]

end

def Scope.before (s : Scope) (scopes : Nat → Scope) : Nat → Scope
  | 0 => s
  | k + 1 => scopes k

/-- The scopes that a script meets from here on when nobody else uses the aggregators: each differs
from the one before by the uses of one action. -/
def Scope.along (element : Option (Element α)) : Scope → Script α → Nat → Scope
  | s, [] => fun _ => s
  | s, action :: rest => s.before ((s.useAll (action.uses element)).along element rest)

/-- The effect of a script that is run alone, from this scope on (`Scope.along`). -/
def execute (intake : Intake α) (element : Option (Element α)) (scope : Scope) (script : Script α) :
    Effect α :=
  executeIn intake element script (scope.along element script)

def Processor.script (p : Processor α) : Hook → Script α
  | .start => p.startHook
  | .finish => p.finishHook

def Processor.effect (p : Processor α) (intake : Intake α) (scope : Scope) (hook : Hook) : Effect α :=
  execute intake none scope (p.script hook)

def WorkItem.effect (item : WorkItem α) (intake : Intake α) (scope : Scope) : Effect α :=
  execute intake (some item.toElement) scope item.script

def Activity.deliveries (intake : Intake α) (a : Activity α) : List (Delivery α) :=
  match a.emitting with
  | none => []
  | some (.queued e) => intake.deliver e
  | some (.writing steps) => steps

/-- The effect that code in progress has ahead of it, if its actions meet these scopes. An emission
it is in the middle of comes first. -/
def Activity.effectIn (intake : Intake α) (element : Option (Element α)) (a : Activity α)
    (scopes : Nat → Scope) : Effect α :=
  (executeIn intake element a.script scopes).taking (a.deliveries intake)

def Progress.effectIn (intake : Intake α) (element : Option (Element α)) :
    Progress α → (Nat → Scope) → Effect α
  | .going a, scopes => a.effectIn intake element scopes
  | .over outcome, _ => { outcome }

def Activity.effect (intake : Intake α) (element : Option (Element α)) (scope : Scope)
    (a : Activity α) : Effect α :=
  a.effectIn intake element (scope.along element a.script)

def Progress.effect (intake : Intake α) (element : Option (Element α)) (scope : Scope) :
    Progress α → Effect α
  | .going a => a.effect intake element scope
  | .over outcome => { outcome }

/-! ## Code of a kind -/

def Wait.action? : Wait → Option (Action α)
  | .latch name => some (.latch name)
  | .supply => some .permit
  | _ => none

/-- All actions of the code are of this kind, and so is the one it waits in. That one is no longer
in the script, so without it the kind would be lost during a wait. -/
structure Activity.All (P : Action α → Prop) (a : Activity α) : Prop where
  script : ∀ action ∈ a.script, P action
  wait : ∀ action, a.wait.action? = some action → P action

theorem Activity.All.mono {P Q : Action α → Prop} {a : Activity α} (h : a.All P)
    (hPQ : ∀ action, P action → Q action) : a.All Q :=
  ⟨fun b hb => hPQ b (h.script b hb), fun b hb => hPQ b (h.wait b hb)⟩

def Action.IsSupplied (opened : Bool) : Action α → Prop
  | .permit => opened = true
  | _ => True

namespace Machine

def output (m : Machine α) : List (Emission (Output α)) := m.arrivals.map (·.emission)

/-! ## One step of code -/

/-- What the beginning of an action makes its code wait for. An emission has waits of its own, in
`Machine.requestEmission`. -/
def waitOf (m : Machine α) : Action α → Wait
  | .sleep ms => m.pause ms
  | .latch name => .latch name
  | .yield => .turn
  | .permit => .supply
  | _ => .nothing

/-- What the beginning of an action can be, told by `Action.does`. This is `Machine.perform` with
its tests made, so no later proof goes through the actions one by one; `denied` is the one case that
`Action.does` leaves out. -/
inductive Performed (m : Machine α) (owner : Owner α) (a : Activity α) (action : Action α) :
    Machine α → Progress α → Prop
  | requests {e : Emission (Output α)} {m₁ : Machine α} {p : Progress α}
      (does : action.does owner.element? m.scope = .ok (some e))
      (request : { m with scope := m.scope.useAll (action.uses owner.element?) }.requestEmission
        owner a e = (m₁, p)) :
      Performed m owner a action m₁ p
  | goesOn {supply : Permits Nat} {tally : Tally}
      (does : action.does owner.element? m.scope = .ok none)
      (emissions : tally.emissions = m.tally.emissions) :
      Performed m owner a action
        { m with scope := m.scope.useAll (action.uses owner.element?), supply, tally }
        (.going { a with wait := m.waitOf action })
  | ends {outcome : Outcome} (does : action.does owner.element? m.scope = .error outcome) :
      Performed m owner a action { m with scope := m.scope.useAll (action.uses owner.element?) }
        (.over outcome)
  | denied (permit : action = .permit) (worker : owner.element?.isSome)
      (closed : m.supplyClosed = true) :
      Performed m owner a action m (.over (.failed .supplyClosed))

/-- What a step of code can be, one constructor for each way through `Machine.act`. Proofs about
code split on this rather than unfold the step. -/
inductive Acted (m : Machine α) (a : Activity α) : Owner α → Machine α → Progress α → Prop
  | granted {n : Nat} {item : WorkItem α} {e : Emission (Output α)}
      (queued : a.emitting = some (.queued e)) :
      Acted m a (.worker n item) ({ m with lock := m.lock.collect n }.beginWriting a e).1
        (.going { a with wait := .nothing, emitting := some (.writing (m.setup.intake.deliver e)) })
  | begins {hook : Hook} {e : Emission (Output α)} (queued : a.emitting = some (.queued e)) :
      Acted m a (.hook hook) (m.beginWriting a e).1
        (.going { a with wait := .nothing, emitting := some (.writing (m.setup.intake.deliver e)) })
  | writes {owner : Owner α} {m₁ : Machine α} {p : Progress α} {steps : List (Delivery α)}
      (writing : a.emitting = some (.writing steps))
      (write : m.write owner { a with wait := .nothing } steps = (m₁, p)) : Acted m a owner m₁ p
  | permitted {n : Nat} {item : WorkItem α} (idle : a.emitting = none) (wait : a.wait = .supply)
      (supplied : m.supplyClosed = false) :
      Acted m a (.worker n item) { m with supply := m.supply.collect n }
        (.going { a with wait := .nothing })
  | denied {n : Nat} {item : WorkItem α} (idle : a.emitting = none) (wait : a.wait = .supply)
      (closed : m.supplyClosed = true) :
      Acted m a (.worker n item) { m with supply := m.supply.leave n }
        (.over (.failed .supplyClosed))
  | returns {owner : Owner α} (idle : a.emitting = none) (script : a.script = []) :
      Acted m a owner m (.over .returned)
  | performs {owner : Owner α} {action : Action α} {rest : Script α} {m₁ : Machine α}
      {p : Progress α} (idle : a.emitting = none) (script : a.script = action :: rest)
      (performed : Performed m owner { a with script := rest, wait := .nothing } action m₁ p) :
      Acted m a owner m₁ p

/-- What one step of code can be: a wait or an emission is over (`passes`), the sink takes in a part
of an emission or panics over it, or an action begins, with what it does as `Action.does` says. -/
inductive ActStep (m m₁ : Machine α) (owner : Owner α) (a : Activity α) : Progress α → Prop
  | passes {a' : Activity α} (script : a'.script = a.script)
      (deliveries : a'.deliveries m.setup.intake = a.deliveries m.setup.intake)
      (output : m₁.output = m.output) (scope : m₁.scope = m.scope) :
      ActStep m m₁ owner a (.going a')
  | delivers {a' : Activity α} {d : Delivery α} (script : a'.script = a.script)
      (deliveries : a.deliveries m.setup.intake = d :: a'.deliveries m.setup.intake)
      (intact : d ≠ .crash) (output : m₁.output = m.output ++ d.recorded)
      (scope : m₁.scope = m.scope) : ActStep m m₁ owner a (.going a')
  | crashes {steps : List (Delivery α)} (deliveries : a.deliveries m.setup.intake = .crash :: steps)
      (output : m₁.output = m.output) (scope : m₁.scope = m.scope) :
      ActStep m m₁ owner a (.over .panicked)
  | performs {action : Action α} {a' : Activity α} {e : Option (Emission (Output α))}
      (script : a.script = action :: a'.script) (calm : a.deliveries m.setup.intake = [])
      (does : action.does owner.element? m.scope = .ok e)
      (deliveries : a'.deliveries m.setup.intake = m.setup.intake.deliveries e)
      (output : m₁.output = m.output)
      (scope : m₁.scope = m.scope.useAll (action.uses owner.element?)) :
      ActStep m m₁ owner a (.going a')
  | ends {action : Action α} {rest : Script α} {outcome : Outcome}
      (script : a.script = action :: rest) (calm : a.deliveries m.setup.intake = [])
      (does : action.does owner.element? m.scope = .error outcome) (output : m₁.output = m.output)
      (scope : m₁.scope = m.scope.useAll (action.uses owner.element?)) :
      ActStep m m₁ owner a (.over outcome)
  | returns (script : a.script = []) (calm : a.deliveries m.setup.intake = [])
      (output : m₁.output = m.output) (scope : m₁.scope = m.scope) :
      ActStep m m₁ owner a (.over .returned)

variable {m m₁ : Machine α} {owner : Owner α} {a a' : Activity α} {p : Progress α} {opened : Bool}

theorem performed {action : Action α} (hwait : a.wait = .nothing)
    (h : m.perform owner a action = (m₁, p)) : Performed m owner a action m₁ p := by
  -- Actions that wait for nothing leave the code as it is.
  have hsame : a = { a with wait := .nothing } := by rw [← hwait]
  cases action with
  | sleep | latch | yield | fail | panic =>
    cases h
    first
      | exact .goesOn rfl rfl
      | exact .ends rfl
  | add | enter | leave | note =>
    cases h
    rw [hsame]
    exact .goesOn rfl rfl
  | emit call =>
    simp only [perform] at h
    cases hcall : call.emission? (owner.element?.map (·.timestamp)) with
    | some e =>
      simp only [hcall] at h
      exact .requests (by simp only [Action.does, hcall]) h
    | none =>
      simp only [hcall] at h
      cases h
      exact .ends (by simp only [Action.does, hcall])
  | report question named =>
    simp only [perform] at h
    cases htime : emissionTime? owner.element? named with
    | none =>
      simp only [htime] at h
      cases h
      have huses : (Action.report question named).uses owner.element? = [] := by
        simp [Action.uses, htime]
      have hends := Performed.ends (m := m) (a := a)
        (by simp only [Action.does, htime] : Action.does owner.element? m.scope
          (.report question named) = .error (.failed .noSuchCall))
      rwa [huses] at hends
    | some time =>
      have hscope : (m.scope.read owner.element? question).2 =
          m.scope.useAll ((Action.report question named).uses owner.element?) := by
        simp only [Action.uses, htime, Option.isSome_some, if_true, m.scope.read_scope]
      cases hread : m.scope.read owner.element? question with
      | mk reading scope =>
        rw [hread] at hscope
        subst hscope
        simp only [htime, hread] at h
        cases reading with
        | some r => exact .requests (by simp only [Action.does, htime, hread]) h
        | none =>
          cases h
          exact .ends (by simp only [Action.does, htime, hread])
  | permit =>
    cases owner with
    | hook hook =>
      cases h
      exact .ends rfl
    | worker n item =>
      simp only [perform] at h
      split at h
      · rename_i hclosed
        cases h
        exact .denied rfl rfl hclosed
      · cases h
        exact .goesOn rfl rfl

theorem acted (h : m.act owner a = (m₁, p)) : Acted m a owner m₁ p := by
  unfold act at h
  split at h
  · cases h
    exact .granted ‹_›
  · cases h
    exact .begins ‹_›
  · exact .writes ‹_› h
  · rename_i hidle hwait
    unfold takePermit at h
    split at h
    · rename_i hclosed
      cases h
      exact .denied hidle hwait hclosed
    · rename_i hopen
      cases h
      exact .permitted hidle hwait (Bool.eq_false_iff.mpr hopen)
  · rename_i hidle _
    split at h
    · cases h
      exact .returns hidle ‹_›
    · exact .performs hidle ‹_› (performed rfl h)

theorem actStep_of_write {steps : List (Delivery α)} (ha : a.emitting = some (.writing steps))
    (h : m.write owner { a with wait := .nothing } steps = (m₁, p)) : ActStep m m₁ owner a p := by
  have hdeliveries : a.deliveries m.setup.intake = steps := by rw [Activity.deliveries, ha]
  cases steps with
  | nil => cases owner <;> cases h <;> exact .passes rfl hdeliveries.symm rfl rfl
  | cons d steps =>
    cases d with
    | pause | breathe | write =>
      cases h
      exact .delivers rfl hdeliveries nofun (List.append_nil _).symm rfl
    | keep e =>
      cases h
      exact .delivers rfl hdeliveries nofun List.map_append rfl
    | crash => cases owner <;> cases h <;> exact .crashes hdeliveries rfl rfl

theorem requestEmission_eq_going (m : Machine α) (owner : Owner α) (a : Activity α)
    (e : Emission (Output α)) :
    ∃ m₁ a', m.requestEmission owner a e = (m₁, .going a') ∧ a'.script = a.script ∧
      a'.deliveries m.setup.intake = m.setup.intake.deliver e ∧ m₁.output = m.output ∧
      m₁.scope = m.scope := by
  cases owner <;> exact ⟨_, _, rfl, rfl, rfl, rfl, rfl⟩

theorem actStep_of_perform {action : Action α} {rest : Script α} (ha : a.emitting = none)
    (hscript : a.script = action :: rest)
    (hopen : owner.element?.isSome → action = .permit → m.supplyClosed = false)
    (h : Performed m owner { a with script := rest, wait := .nothing } action m₁ p) :
    ActStep m m₁ owner a p := by
  have hcalm : a.deliveries m.setup.intake = [] := by rw [Activity.deliveries, ha]
  cases h with
  | requests does request =>
    obtain ⟨m₂, b, heq, hb, hdeliveries, hout, hscope⟩ := requestEmission_eq_going
      { m with scope := m.scope.useAll (action.uses owner.element?) } owner
      { a with script := rest, wait := .nothing } ‹_›
    rw [heq] at request
    cases request
    exact .performs (by rw [hscript, hb]) hcalm does hdeliveries hout hscope
  | goesOn does =>
    have hcalm' : ({ a with script := rest, wait := m.waitOf action } : Activity α).deliveries
        m.setup.intake = [] := by
      rw [Activity.deliveries]
      simp only [ha]
    exact .performs hscript hcalm does hcalm' rfl rfl
  | ends does => exact .ends hscript hcalm does rfl rfl
  | denied permit worker closed => cases (hopen worker permit).symm.trans closed

/-- Every step of code is one of the list, if a permit is asked for only while the supply is open. A
hook asks for none, so for it there is nothing to show. -/
theorem actStep (h : m.act owner a = (m₁, p)) (hopen : opened = true → m.supplyClosed = false)
    (hsupplied : owner.element?.isSome → a.All (Action.IsSupplied opened)) :
    ActStep m m₁ owner a p := by
  cases acted h with
  | granted queued | begins queued =>
    exact .passes rfl (by rw [Activity.deliveries, Activity.deliveries, queued]) rfl rfl
  | writes writing write => exact actStep_of_write writing write
  | permitted => exact .passes rfl rfl rfl rfl
  | denied idle wait closed =>
    have hclosed : m.supplyClosed = false :=
      hopen ((hsupplied rfl).wait .permit (by rw [wait]; rfl))
    cases hclosed.symm.trans closed
  | returns idle script => exact .returns script (by rw [Activity.deliveries, idle]) rfl rfl
  | @performs _ action rest _ _ idle script performed =>
    refine actStep_of_perform idle script (fun he haction => hopen ?_) performed
    have hfirst := (hsupplied he).script action (by rw [script]; exact List.mem_cons_self)
    rwa [haction] at hfirst

/-! ## The effect that is ahead -/

structure Leaves (m m₁ : Machine α) (out : List (Emission (Output α))) (us : List Use) : Prop where
  output : m₁.output = m.output ++ out
  scope : m₁.scope = m.scope.useAll us

theorem leaves_nothing (houtput : m₁.output = m.output) (hscope : m₁.scope = m.scope) :
    Leaves m m₁ [] [] :=
  ⟨by rw [houtput, List.append_nil], hscope⟩

/-- A step that has carried out the first part of the effect that is ahead, whatever scopes the code
will meet. If the step begins an action, that meets the scope which the step finds. -/
inductive GoesThrough (m m₁ : Machine α) (owner : Owner α) (a : Activity α) (p : Progress α) : Prop
  | goesOn {out : List (Emission (Output α))} (leaves : Leaves m m₁ out [])
      (script : ∀ a', p = .going a' → a'.script = a.script)
      (effect : ∀ scopes, a.effectIn m.setup.intake owner.element? scopes =
        (p.effectIn m.setup.intake owner.element? scopes).after out [])
  | begins {action : Action α} {rest : Script α}
      (leaves : Leaves m m₁ [] (action.uses owner.element?)) (before : a.script = action :: rest)
      (script : ∀ a', p = .going a' → a'.script = rest)
      (effect : ∀ scopes, a.effectIn m.setup.intake owner.element? (m.scope.before scopes) =
        (p.effectIn m.setup.intake owner.element? scopes).after [] (action.uses owner.element?))

theorem ActStep.goesThrough (h : ActStep m m₁ owner a p) : GoesThrough m m₁ owner a p := by
  cases h with
  | passes script deliveries output scope =>
    refine .goesOn (leaves_nothing output scope) (fun b hb => by cases hb; exact script) ?_
    intro scopes
    rw [Progress.effectIn, Activity.effectIn, Activity.effectIn, script, deliveries]
    rfl
  | delivers script deliveries intact output scope =>
    refine .goesOn ⟨output, scope⟩ (fun b hb => by cases hb; exact script) ?_
    intro scopes
    rw [Progress.effectIn, Activity.effectIn, Activity.effectIn, script, deliveries,
      Effect.taking_cons _ intact]
  | crashes deliveries output scope =>
    refine .goesOn (leaves_nothing output scope) (fun b hb => by cases hb) ?_
    intro scopes
    rw [Activity.effectIn, deliveries]
    rfl
  | performs script calm does deliveries output scope =>
    refine .begins ⟨by rw [output, List.append_nil], scope⟩ script
      (fun b hb => by cases hb; rfl) ?_
    intro scopes
    rw [Progress.effectIn, Activity.effectIn, Activity.effectIn, script, calm, deliveries,
      executeIn_ok does]
    rfl
  | ends script calm does output scope =>
    refine .begins ⟨by rw [output, List.append_nil], scope⟩ script (fun b hb => by cases hb) ?_
    intro scopes
    rw [Activity.effectIn, script, calm, executeIn_error does]
    simp [Effect.taking, Effect.after, Progress.effectIn]
  | returns script calm output scope =>
    refine .goesOn (leaves_nothing output scope) (fun b hb => by cases hb) ?_
    intro scopes
    rw [Activity.effectIn, script, calm]
    rfl

/-- If the scopes that the code will meet are of a kind, and so is the one that the step finds, then
the code met scopes of that kind all along. With `Scope.SameFacts` for the kind this carries every
fact about code that reads no aggregator. -/
theorem GoesThrough.within (h : GoesThrough m m₁ owner a p) {P : Scope → Prop} (hP : P m.scope) :
    ∃ out us, Leaves m m₁ out us ∧ ∀ scopes, (∀ k, P (scopes k)) →
      ∃ scopes', (∀ k, P (scopes' k)) ∧ a.effectIn m.setup.intake owner.element? scopes' =
        (p.effectIn m.setup.intake owner.element? scopes).after out us := by
  cases h with
  | goesOn leaves _ effect => exact ⟨_, _, leaves, fun scopes hall => ⟨scopes, hall, effect scopes⟩⟩
  | begins leaves _ _ effect =>
    refine ⟨_, _, leaves, fun scopes hall => ⟨m.scope.before scopes, fun k => ?_, effect scopes⟩⟩
    cases k with
    | zero => exact hP
    | succ k => exact hall k

/-- A step that has carried out the first part of the effect that is ahead of code that is alone.
Unlike `GoesThrough` this needs no scopes to be named, and it is all that the sequential loop and
the hooks need. -/
def CarriesOut (m m₁ : Machine α) (owner : Owner α) (a : Activity α) (p : Progress α) : Prop :=
  ∃ out us, Leaves m m₁ out us ∧
    a.effect m.setup.intake owner.element? m.scope =
      (p.effect m.setup.intake owner.element? m₁.scope).after out us

theorem GoesThrough.carriesOut (h : GoesThrough m m₁ owner a p) : CarriesOut m m₁ owner a p := by
  cases h with
  | goesOn leaves script effect =>
    refine ⟨_, _, leaves, (effect _).trans ?_⟩
    cases p with
    | going a' => rw [Progress.effect, Activity.effect, script a' rfl, leaves.scope]; rfl
    | «over» => rfl
  | @begins action rest leaves before script effect =>
    refine ⟨_, _, leaves, ?_⟩
    rw [Activity.effect, before, Scope.along, effect]
    cases p with
    | going a' => rw [Progress.effect, Activity.effect, script a' rfl, leaves.scope]; rfl
    | «over» => rfl

theorem act_carriesOut (h : m.act owner a = (m₁, p))
    (hopen : opened = true → m.supplyClosed = false)
    (hsupplied : owner.element?.isSome → a.All (Action.IsSupplied opened)) :
    CarriesOut m m₁ owner a p :=
  (actStep h hopen hsupplied).goesThrough.carriesOut

/-! ## What code goes on with -/

theorem pause_action? (m : Machine α) (ms : Nat) :
    ((m.pause ms).action? : Option (Action α)) = none := by
  unfold pause
  split <;> rfl

theorem requestEmission_script {e : Emission (Output α)}
    (h : m.requestEmission owner a e = (m₁, .going a')) :
    a'.script = a.script ∧ (a'.wait.action? : Option (Action α)) = none := by
  cases owner
  all_goals
    cases h
    exact ⟨rfl, rfl⟩

theorem eq_of_waitOf (m : Machine α) {action b : Action α}
    (h : (m.waitOf action).action? = some b) : b = action := by
  cases action with
  | sleep ms => cases (m.pause_action? ms).symm.trans h
  | latch | permit => exact (Option.some.inj h).symm
  | _ => cases h

/-- Code goes on with the rest of its script, and if it waits, it does so in the action it has just
begun. -/
theorem performed_script {action : Action α} (h : Performed m owner a action m₁ (.going a')) :
    a'.script = a.script ∧ ∀ b, a'.wait.action? = some b → b = action := by
  cases h with
  | requests _ request =>
    obtain ⟨hscript, hnone⟩ := requestEmission_script request
    exact ⟨hscript, fun b hb => by cases hnone.symm.trans hb⟩
  | goesOn => exact ⟨rfl, fun b => m.eq_of_waitOf⟩

theorem write_script {steps : List (Delivery α)} (h : m.write owner a steps = (m₁, .going a')) :
    a'.script = a.script ∧ (a'.wait.action? : Option (Action α)) = none := by
  cases steps with
  | nil =>
    cases h
    exact ⟨rfl, rfl⟩
  | cons d steps =>
    cases d with
    | pause ms =>
      cases h
      exact ⟨rfl, m.pause_action? ms⟩
    | crash => cases h
    | breathe | write | keep =>
      cases h
      exact ⟨rfl, rfl⟩

/-- Code of a kind stays of that kind (`Activity.All`), since a step only takes actions away. -/
theorem act_all {P : Action α → Prop} (h : m.act owner a = (m₁, .going a')) (ha : a.All P) :
    a'.All P := by
  have hcalm (hscript : a'.script = a.script)
      (hnone : (a'.wait.action? : Option (Action α)) = none) :
      a'.All P :=
    ⟨by rw [hscript]; exact ha.script, fun b hb => by cases hnone.symm.trans hb⟩
  cases acted h with
  | granted | begins | permitted => exact hcalm rfl rfl
  | writes _ write =>
    obtain ⟨hscript, hnone⟩ := write_script write
    exact hcalm hscript hnone
  | @performs _ action rest _ _ _ script performed =>
    obtain ⟨hrest, hwait⟩ := performed_script performed
    have hall := ha.script
    rw [script] at hall
    refine ⟨fun b hb => hall b (List.mem_cons_of_mem _ (by rwa [hrest] at hb)), fun b hb => ?_⟩
    rw [hwait b hb]
    exact hall action List.mem_cons_self

end Machine

end WorkBundle
