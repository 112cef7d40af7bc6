import WorkBundle.Proofs.Effects

/-!
# What code emits

A script says what it emits: `emissionsOf` reads it off, action by action, up to the point at
which the code ends. An activity in the middle of its script has the rest of that ahead of it
(`Activity.remaining`), and `act_emits` says that one step of the code hands exactly the first
part of it to the sink.

That takes code whose emissions depend on nothing that changes (`Action.IsSteady`): it asks for no
aggregator, and takes no permit of a supply that may be closed. Of such code the scope decides
nothing but its facts, so what it records, whatever scopes with these facts it meets, is what it
emits (`executeIn_records`). A hook need not be steady, since nobody else is at work while it runs:
it records what it records when it is run alone (`Machine.act_carriesOut`).
-/

set_option autoImplicit false

namespace WorkBundle

variable {α : Type}

/-! ## Emissions of scripts -/

/-- What an action emits in this scope: `none` if the code ends with it, and otherwise an emission
or none. By `Action.does_emits` this is what `Action.does` leaves when the outcome is forgotten. -/
def Action.emits (scope : Scope) (element : Option (Element α)) :
    Action α → Option (Option (Emission (Output α)))
  | .emit call => (call.emission? (element.map (·.timestamp))).map some
  | .report question named =>
    (emissionTime? element named).bind fun time =>
      (scope.read element question).1.map fun r => some (.main (.reading r) time)
  | .permit => element.map fun _ => none
  | .fail _ | .panic => none
  | _ => some none

/-- The emissions of code whose questions are all answered from one scope, up to the point at which
it ends. For steady code that is no restriction (`emissionsAlone_of_steady`). -/
def emissionsOf (scope : Scope) (element : Option (Element α)) :
    Script α → List (Emission (Output α))
  | [] => []
  | action :: rest =>
    match action.emits scope element with
    | none => []
    | some e => e.toList ++ emissionsOf scope element rest

/-- The emissions of code that is alone with the aggregators, up to the point at which it ends: each
action finds the scope that the ones before it have left (`Action.uses`). -/
def emissionsAlone (element : Option (Element α)) : Scope → Script α → List (Emission (Output α))
  | _, [] => []
  | s, action :: rest =>
    match action.emits s element with
    | none => []
    | some e => e.toList ++ emissionsAlone element (s.useAll (action.uses element)) rest

/-- What a hook emits that finds this `Scope`. Nobody else is at work while a hook runs, so it may
ask for aggregators and its emissions are still determined. -/
def Processor.emissions (p : Processor α) (scope : Scope) (hook : Hook) :
    List (Emission (Output α)) :=
  emissionsAlone none scope (p.script hook)

/-- What the sink records when it takes an emission in by these steps, and `rest` after it. If it
panics, the code is gone and `rest` is never emitted. -/
def recordedBy : List (Delivery α) → List (Emission (Output α)) → List (Emission (Output α))
  | [], rest => rest
  | .keep e :: steps, rest => e :: recordedBy steps rest
  | .crash :: _, _ => []
  | _ :: steps, rest => recordedBy steps rest

def recordsOf (intake : Intake α) (scope : Scope) (element : Option (Element α)) :
    Script α → List (Emission (Output α))
  | [] => []
  | action :: rest =>
    match action.emits scope element with
    | none => []
    | some none => recordsOf intake scope element rest
    | some (some e) => recordedBy (intake.deliver e) (recordsOf intake scope element rest)

theorem recordedBy_collecting (pause : Option Nat) (e : Emission (Output α))
    (rest : List (Emission (Output α))) :
    recordedBy ((Intake.collecting pause fun _ => false).deliver e) rest = e :: rest := by
  cases pause <;> cases e <;> rfl

theorem recordsOf_collecting (pause : Option Nat) (scope : Scope) (element : Option (Element α))
    (script : Script α) :
    recordsOf (.collecting pause fun _ => false) scope element script =
      emissionsOf scope element script := by
  induction script with
  | nil => rfl
  | cons action rest ih =>
    simp only [recordsOf, emissionsOf]
    cases action.emits scope element with
    | none => rfl
    | some e =>
      cases e with
      | none => exact ih
      | some e => exact (recordedBy_collecting pause e _).trans (congrArg (e :: ·) ih)

/-- What the sink has yet to record of code in progress. An emission that the sink has begun to take
in counts with the steps that are left of it. -/
def Activity.remaining (intake : Intake α) (scope : Scope) (element : Option (Element α))
    (a : Activity α) : List (Emission (Output α)) :=
  let rest := recordsOf intake scope element a.script
  match a.emitting with
  | none => rest
  | some (.queued e) => recordedBy (intake.deliver e) rest
  | some (.writing steps) => recordedBy steps rest

def Progress.remaining (intake : Intake α) (scope : Scope) (element : Option (Element α)) :
    Progress α → List (Emission (Output α))
  | .going a => a.remaining intake scope element
  | .over _ => []

/-! ## Code whose emissions are its own -/

/-- The action emits the same whatever else happens, where `opened` says that the supply stays open.
That excludes just two: a question for an aggregator, and a permit of a supply that may be closed.
-/
def Action.IsSteady (opened : Bool) : Action α → Prop
  | .report (.aggregator ..) _ => False
  | .permit => opened = true
  | _ => True

theorem Action.IsSteady.isSupplied {opened : Bool} {action : Action α}
    (h : action.IsSteady opened) : action.IsSupplied opened := by
  cases action with
  | permit => exact h
  | _ => trivial

/-- What nobody changes in a scope, its options and its side inputs, is the same in both. The
aggregators may differ. -/
def Scope.SameFacts (s s' : Scope) : Prop := s.options = s'.options ∧ s.sideInputs = s'.sideInputs

namespace Scope

variable {s s' : Scope}

theorem SameFacts.read_eq (h : s.SameFacts s') (element : Option (Element α)) {question : Read}
    (hq : ∀ name combiner, question ≠ .aggregator name combiner) :
    (s.read element question).1 = (s'.read element question).1 := by
  obtain ⟨hoptions, hsides⟩ := h
  cases question with
  | aggregator name combiner => exact absurd rfl (hq name combiner)
  | _ => simp only [read, hoptions, hsides]

theorem SameFacts.useAll (h : s.SameFacts s') (us : List Use) : (s.useAll us).SameFacts s' := by
  obtain ⟨hoptions, hsides⟩ := s.useAll_facts us
  exact ⟨hoptions.trans h.1, hsides.trans h.2⟩

theorem SameFacts.along (h : s.SameFacts s') (element : Option (Element α)) (script : Script α)
    (k : Nat) : (s.along element script k).SameFacts s' := by
  induction script generalizing s k with
  | nil => exact h
  | cons action rest ih =>
    cases k with
    | zero => exact h
    | succ k => exact ih (h.useAll _) k

end Scope

theorem Action.does_emits (s : Scope) (element : Option (Element α)) (action : Action α) :
    (action.does element s).toOption = action.emits s element := by
  cases action with
  | emit call =>
    simp only [does, emits]
    cases call.emission? (element.map (·.timestamp)) <;> rfl
  | report question named =>
    simp only [does, emits]
    cases emissionTime? element named with
    | none => rfl
    | some time => cases (s.read element question).1 <;> rfl
  | permit => cases element <;> rfl
  | _ => rfl

theorem Action.IsSteady.emits_eq {s scope : Scope} {element : Option (Element α)} {opened : Bool}
    {action : Action α} (hs : s.SameFacts scope) (h : action.IsSteady opened) :
    action.emits s element = action.emits scope element := by
  cases action with
  | report question named =>
    -- Steady code does not read the aggregators, the one thing that others write.
    have hq : ∀ name combiner, question ≠ .aggregator name combiner := by
      rintro name combiner rfl
      exact h
    simp only [emits, hs.read_eq element hq]
  | _ => rfl

theorem emissionsAlone_of_steady {s scope : Scope} {element : Option (Element α)} {opened : Bool}
    {script : Script α} (hscript : ∀ action ∈ script, action.IsSteady opened)
    (hs : s.SameFacts scope) : emissionsAlone element s script = emissionsOf scope element script := by
  induction script generalizing s with
  | nil => rfl
  | cons action rest ih =>
    obtain ⟨haction, hrest⟩ := List.forall_mem_cons.mp hscript
    rw [emissionsAlone, emissionsOf, haction.emits_eq hs, ih hrest (hs.useAll _)]

theorem Effect.taking_records (e : Effect α) (steps : List (Delivery α)) :
    (e.taking steps).records = recordedBy steps e.records := by
  induction steps with
  | nil => rfl
  | cons d steps ih =>
    cases d with
    | keep emission => exact congrArg (emission :: ·) ih
    | crash => rfl
    | _ => exact ih

theorem execute_records_collecting (pause : Option Nat) (element : Option (Element α))
    (scope : Scope) (script : Script α) :
    (execute (.collecting pause fun _ => false) element scope script).records =
      emissionsAlone element scope script := by
  induction script generalizing scope with
  | nil => rfl
  | cons action rest ih =>
    have hdoes := action.does_emits scope element
    rw [execute, Scope.along, emissionsAlone, ← hdoes]
    cases hd : action.does element scope with
    | error outcome =>
      rw [executeIn_error (by exact hd)]
      rfl
    | ok e =>
      rw [executeIn_ok (by exact hd)]
      refine (Effect.taking_records _ _).trans ?_
      rw [← ih]
      cases e with
      | none => rfl
      | some e => exact recordedBy_collecting pause e _

/-- What steady code records when it is run, whatever scopes with these facts it meets. This is
where `Action.IsSteady` is spent: all later results are about `recordsOf`, in which no schedule
occurs. -/
theorem executeIn_records {intake : Intake α} {element : Option (Element α)} {scope : Scope}
    {opened : Bool} {script : Script α}
    (hscript : ∀ action ∈ script, action.IsSteady opened) {scopes : Nat → Scope}
    (hscopes : ∀ k, (scopes k).SameFacts scope) :
    (executeIn intake element script scopes).records = recordsOf intake scope element script := by
  induction script generalizing scopes with
  | nil => rfl
  | cons action rest ih =>
    have hrest := ih (fun b hb => hscript b (List.mem_cons_of_mem _ hb)) fun k => hscopes (k + 1)
    have hsteady : action.IsSteady opened := hscript action List.mem_cons_self
    have hdoes := (action.does_emits (scopes 0) element).trans (hsteady.emits_eq (hscopes 0))
    cases hd : action.does element (scopes 0) with
    | error outcome =>
      rw [hd] at hdoes
      rw [executeIn_error hd, recordsOf, ← hdoes]
      rfl
    | ok e =>
      rw [hd] at hdoes
      rw [executeIn_ok hd, recordsOf, ← hdoes]
      cases e with
      | none => exact hrest
      | some e => exact (Effect.taking_records _ _).trans (by rw [hrest]; rfl)

theorem Activity.effectIn_records {intake : Intake α} {element : Option (Element α)} {scope : Scope}
    {opened : Bool} {a : Activity α} (ha : a.All (Action.IsSteady opened))
    {scopes : Nat → Scope} (hscopes : ∀ k, (scopes k).SameFacts scope) :
    (a.effectIn intake element scopes).records = a.remaining intake scope element := by
  have hrest : (executeIn intake element a.script scopes).records =
      recordsOf intake scope element a.script :=
    executeIn_records ha.script hscopes
  rw [effectIn, Effect.taking_records, hrest, remaining, deliveries]
  cases a.emitting with
  | none => rfl
  | some emitting => cases emitting <;> rfl

namespace Machine

/-! ## One step of code -/

structure Steady (m : Machine α) (scope : Scope) (opened : Bool) : Prop where
  facts : m.scope.SameFacts scope
  supply : opened = true → m.supplyClosed = false

variable {m m₁ : Machine α} {owner : Owner α} {a : Activity α} {p : Progress α} {scope : Scope}
  {opened : Bool}

/-- One step of code hands the sink the next part of what is ahead of it; the rest stays ahead. The
invariants on the output of a bundle follow by induction from this and its counterpart for hooks,
`act_carriesOut`. -/
theorem act_emits (h : m.act owner a = (m₁, p)) (hm : m.Steady scope opened)
    (hsteady : a.All (Action.IsSteady opened)) :
    ∃ out, m₁.output = m.output ++ out ∧
      a.remaining m.setup.intake scope owner.element? =
        out ++ p.remaining m.setup.intake scope owner.element? := by
  have hstep := actStep h hm.supply fun _ => hsteady.mono fun _ => Action.IsSteady.isSupplied
  obtain ⟨out, us, leaves, heffect⟩ :=
    hstep.goesThrough.within (P := fun s => s.SameFacts scope) hm.facts
  -- Any scopes with these facts will do.
  obtain ⟨scopes, hscopes, heq⟩ := heffect (fun _ => scope) fun _ => ⟨rfl, rfl⟩
  refine ⟨out, leaves.output, ?_⟩
  rw [← Activity.effectIn_records hsteady hscopes, heq]
  refine congrArg (out ++ ·) ?_
  cases p with
  | going a' =>
    exact Activity.effectIn_records (act_all h hsteady) fun _ => ⟨rfl, rfl⟩
  | «over» => rfl

/-! ## The world around code stays steady -/

theorem requestEmission_scope (m : Machine α) (owner : Owner α) (a : Activity α)
    (e : Emission (Output α)) : (m.requestEmission owner a e).1.scope = m.scope := by
  cases owner <;> rfl

theorem write_scope (m : Machine α) (owner : Owner α) (a : Activity α) (steps : List (Delivery α)) :
    (m.write owner a steps).1.scope = m.scope := by
  obtain ⟨lock, arrivals, written, emissions, heq⟩ := m.write_eq owner a steps
  rw [heq]

theorem act_facts (h : m.act owner a = (m₁, p)) (hm : m.scope.SameFacts scope) :
    m₁.scope.SameFacts scope := by
  cases acted h with
  | @writes _ _ _ steps _ write =>
    have hscope := m.write_scope owner { a with wait := .nothing } steps
    rw [write] at hscope
    exact hscope ▸ hm
  | @performs _ action _ _ _ _ _ performed =>
    cases performed with
    | requests _ request =>
      have hscope := congrArg (fun result => result.1.scope) request
      simp only [requestEmission_scope] at hscope
      exact hscope ▸ hm.useAll _
    | goesOn | ends => exact hm.useAll _
    | denied => exact hm
  | _ => exact hm

theorem act_steady (h : m.act owner a = (m₁, p)) (hm : m.Steady scope opened) :
    m₁.Steady scope opened := by
  have hclosed : m₁.supplyClosed = m.supplyClosed := by
    obtain ⟨_, _, _, _, _, _, rfl⟩ := act_eq h
    rfl
  exact ⟨act_facts h hm.facts, fun ho => hclosed.trans (hm.supply ho)⟩

end Machine

end WorkBundle
