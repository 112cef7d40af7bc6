import WorkBundle.Proofs.Senders

/-!
# Code that others cannot disturb

Others can tell of code how it uses the aggregators and how it ends (`Effect.upshot`). Code is
*settled* if that is the same whatever others do to the aggregators meanwhile. Then each step
carries out the first part of the same upshot, on every schedule (`GoesThrough.upshot`).

What code reads of the aggregators, it can only emit. So nothing but the sink can unsettle it, by a
panic over what it is given: every item is settled where the sink never panics
(`Intake.IsIntact.isSettled`), and a hook is settled if it returns, whatever it reads
(`Processor.Returns.settles`).
-/

set_option autoImplicit false

namespace WorkBundle

variable {α : Type}

namespace Effect

/-- How the code uses the aggregators, and how it ends. It leaves the emissions out, which is why
code that emits what it has read of an aggregator may still be settled. -/
def upshot (e : Effect α) : List Use × Outcome := (e.uses, e.outcome)

theorem upshot_after {e e' : Effect α} (h : e.upshot = e'.upshot)
    (out out' : List (Emission (Output α))) (us : List Use) :
    (e.after out us).upshot = (e'.after out' us).upshot := by
  obtain ⟨huses, houtcome⟩ := Prod.mk.inj h
  simp only [upshot, after, huses, houtcome]

theorem taking_upshot (e : Effect α) {steps : List (Delivery α)} (h : ∀ d ∈ steps, d ≠ .crash) :
    (e.taking steps).upshot = e.upshot := by
  induction steps with
  | nil => rfl
  | cons d steps ih =>
    obtain ⟨hd, hsteps⟩ := List.forall_mem_cons.mp h
    rw [taking_cons e hd]
    exact ih hsteps

end Effect

variable {intake : Intake α} {element : Option (Element α)} {scope : Scope} {a : Activity α}

/-! ## Items and hooks -/

/-- How the item uses the aggregators and how it ends depend on nothing but the item and the facts
of the scope, so no schedule can change them. -/
def WorkItem.IsSettled (intake : Intake α) (scope : Scope) (item : WorkItem α) : Prop :=
  ∀ scopes : Nat → Scope, (∀ k, (scopes k).SameFacts scope) →
    (executeIn intake (some item.toElement) item.script scopes).upshot =
      (item.effect intake scope).upshot

def Script.IsSettled (intake : Intake α) (element : Option (Element α)) (scope : Scope)
    (script : Script α) : Prop :=
  ∀ scopes : Nat → Scope, (∀ k, (scopes k).SameFacts scope) →
    (executeIn intake element script scopes).upshot = (execute intake element scope script).upshot

/-- The hook returns, with or without an error, whatever the aggregators hold when it asks for them.
With a sink that does not panic, it is enough that it returns when it is run alone
(`Intake.IsIntact.returns`). -/
def Processor.Returns (p : Processor α) (intake : Intake α) (scope : Scope) (hook : Hook) : Prop :=
  ∀ scopes : Nat → Scope, (∀ k, (scopes k).SameFacts scope) →
    (executeIn intake none (p.script hook) scopes).outcome ≠ .panicked

theorem Scope.isSome_read_eq (s s' : Scope) (element : Option (Element α)) (question : Read) :
    (s.read element question).1.isSome = (s'.read element question).1.isSome := by
  cases question <;> cases element <;> rfl

/-- Of what an action does, only the emission depends on the scope: whether a question has an answer
is told by its kind (`Scope.isSome_read_eq`). -/
theorem Action.does_congr (element : Option (Element α)) (s s' : Scope) (action : Action α) :
    (∃ outcome, action.does element s = .error outcome ∧ action.does element s' = .error outcome) ∨
      ∃ e e', action.does element s = .ok e ∧ action.does element s' = .ok e' := by
  cases action with
  | report question named =>
    have hsome := s.isSome_read_eq s' element question
    simp only [does]
    cases emissionTime? element named with
    | none => simp
    | some time =>
      cases hr : (s.read element question).1 <;> cases hr' : (s'.read element question).1
      all_goals simp [hr, hr'] at hsome ⊢
  | emit call =>
    simp only [does]
    cases call.emission? (element.map (·.timestamp)) <;> simp
  | permit => cases element <;> simp [does]
  | _ => simp [does]

/-- The sink takes in every emission without a panic, as one does that refuses nothing
(`Intake.isIntact_collecting`). -/
def Intake.IsIntact (intake : Intake α) : Prop := ∀ e, ∀ d ∈ intake.deliver e, d ≠ .crash

theorem Intake.isIntact_collecting {pause : Option Nat} {refuses : Output α → Bool}
    (h : ∀ v, refuses v = false) : (Intake.collecting pause refuses).IsIntact := by
  intro e d hd
  cases pause <;> cases e <;> simp only [collecting, h] at hd <;> grind

theorem Intake.IsIntact.deliveries (h : intake.IsIntact) (e : Option (Emission (Output α))) :
    ∀ d ∈ intake.deliveries e, d ≠ .crash := by
  cases e with
  | none => nofun
  | some e => exact h e

theorem executeIn_upshot (h : intake.IsIntact) (script : Script α) (scopes scopes' : Nat → Scope) :
    (executeIn intake element script scopes).upshot =
      (executeIn intake element script scopes').upshot := by
  induction script generalizing scopes scopes' with
  | nil => rfl
  | cons action rest ih =>
    rcases action.does_congr element (scopes 0) (scopes' 0) with
      ⟨outcome, hd, hd'⟩ | ⟨e, e', hd, hd'⟩
    · rw [executeIn_error hd, executeIn_error hd']
    · have hrest := Effect.taking_upshot (executeIn intake element rest fun k => scopes (k + 1))
        (h.deliveries e)
      have hrest' := Effect.taking_upshot (executeIn intake element rest fun k => scopes' (k + 1))
        (h.deliveries e')
      rw [executeIn_ok hd, executeIn_ok hd']
      exact Effect.upshot_after (hrest.trans ((ih _ _).trans hrest'.symm)) _ _ _

theorem Effect.taking_crash (e : Effect α) {steps : List (Delivery α)} (h : .crash ∈ steps) :
    (e.taking steps).outcome = .panicked := by
  induction steps with
  | nil => cases h
  | cons d steps ih =>
    cases d with
    | crash => rfl
    | _ => exact ih (by simpa using h)

/-- Code that never panics in scopes with these facts has the same upshot in all of them. A sink
might panic over one reading and not over another, so it is not enough that the code does not panic
in one of them. -/
theorem executeIn_upshot_of_never (script : Script α)
    (h : ∀ scopes : Nat → Scope, (∀ k, (scopes k).SameFacts scope) →
      (executeIn intake element script scopes).outcome ≠ .panicked)
    {scopes scopes' : Nat → Scope} (hscopes : ∀ k, (scopes k).SameFacts scope)
    (hscopes' : ∀ k, (scopes' k).SameFacts scope) :
    (executeIn intake element script scopes).upshot =
      (executeIn intake element script scopes').upshot := by
  induction script generalizing scopes scopes' with
  | nil => rfl
  | cons action rest ih =>
    rcases action.does_congr element (scopes 0) (scopes' 0) with
      ⟨outcome, hd, hd'⟩ | ⟨e, e', hd, hd'⟩
    · rw [executeIn_error hd, executeIn_error hd']
    -- The sink takes the emission in, or the code would panic; and so would it if the rest did.
    · have hintact {s : Scope} (hs : s.SameFacts scope) {e : Option (Emission (Output α))}
          (hd : action.does element s = .ok e) : ∀ d ∈ intake.deliveries e, d ≠ .crash := by
        rintro d hcrash rfl
        refine h (s.before fun _ => s) (fun k => by cases k <;> exact hs) ?_
        have hd' : action.does element (s.before (fun _ => s) 0) = .ok e := hd
        rw [executeIn_ok hd']
        exact Effect.taking_crash _ hcrash
      have hrest : ∀ later : Nat → Scope, (∀ k, (later k).SameFacts scope) →
          (executeIn intake element rest later).outcome ≠ .panicked := by
        intro later hlater houtcome
        refine h ((scopes 0).before later) (fun k => by
          cases k with
          | zero => exact hscopes 0
          | succ k => exact hlater k) ?_
        have hd' : action.does element ((scopes 0).before later 0) = .ok e := hd
        rw [executeIn_ok hd']
        exact (congrArg Prod.snd (Effect.taking_upshot _ (hintact (hscopes 0) hd))).trans houtcome
      have hleft := Effect.taking_upshot (executeIn intake element rest fun k => scopes (k + 1))
        (hintact (hscopes 0) hd)
      have hright := Effect.taking_upshot (executeIn intake element rest fun k => scopes' (k + 1))
        (hintact (hscopes' 0) hd')
      have hsame := ih hrest (fun k => hscopes (k + 1)) fun k => hscopes' (k + 1)
      rw [executeIn_ok hd, executeIn_ok hd']
      exact Effect.upshot_after (hleft.trans (hsame.trans hright.symm)) _ _ _

theorem Processor.Returns.settles {p : Processor α} {hook : Hook} (h : p.Returns intake scope hook) :
    Script.IsSettled intake none scope (p.script hook) :=
  fun _ hscopes => executeIn_upshot_of_never _ h hscopes fun k =>
    Scope.SameFacts.along ⟨rfl, rfl⟩ _ _ k

theorem Processor.Returns.outcome_effect {p : Processor α} {hook : Hook}
    (h : p.Returns intake scope hook) : (p.effect intake scope hook).outcome ≠ .panicked :=
  h _ fun k => Scope.SameFacts.along ⟨rfl, rfl⟩ _ _ k

theorem Intake.IsIntact.isSettled_script (h : intake.IsIntact) (element : Option (Element α))
    (script : Script α) : Script.IsSettled intake element scope script :=
  fun _ _ => executeIn_upshot h script _ _

theorem Intake.IsIntact.isSettled (h : intake.IsIntact) (item : WorkItem α) :
    item.IsSettled intake scope :=
  h.isSettled_script (some item.toElement) item.script

theorem Intake.IsIntact.returns (h : intake.IsIntact) {p : Processor α} {hook : Hook}
    (halone : (p.effect intake scope hook).outcome ≠ .panicked) : p.Returns intake scope hook := by
  intro scopes _ houtcome
  exact halone ((congrArg Prod.snd (executeIn_upshot h _ _ scopes)).trans houtcome)

/-! ## Code in progress -/

/-- What is ahead of code in progress if the scope does not change. Any scopes with the same facts
would do; this picks the simplest. -/
def Activity.foreseen (intake : Intake α) (element : Option (Element α)) (scope : Scope)
    (a : Activity α) : Effect α :=
  a.effectIn intake element fun _ => scope

def Progress.foreseen (intake : Intake α) (element : Option (Element α)) (scope : Scope) :
    Progress α → Effect α
  | .going a => a.foreseen intake element scope
  | .over outcome => { outcome }

def Activity.IsSettled (intake : Intake α) (element : Option (Element α)) (scope : Scope)
    (a : Activity α) : Prop :=
  ∀ scopes : Nat → Scope, (∀ k, (scopes k).SameFacts scope) →
    (a.effectIn intake element scopes).upshot = (a.foreseen intake element scope).upshot

theorem Script.IsSettled.activity {script : Script α}
    (h : Script.IsSettled intake element scope script) :
    ({ script } : Activity α).IsSettled intake element scope ∧
      (({ script } : Activity α).foreseen intake element scope).upshot =
        (execute intake element scope script).upshot := by
  have hforeseen := h (fun _ => scope) fun _ => ⟨rfl, rfl⟩
  exact ⟨fun scopes hscopes => (h scopes hscopes).trans hforeseen.symm, hforeseen⟩

namespace Machine

variable {m m₁ : Machine α} {owner : Owner α} {p : Progress α}

/-- A step of settled code carries out the first part of its upshot, and the rest is settled. So
what is used so far and what is foreseen always add up to the same. -/
theorem GoesThrough.upshot (h : GoesThrough m m₁ owner a p) (hfacts : m.scope.SameFacts scope)
    (ha : a.IsSettled m.setup.intake owner.element? scope) :
    ∃ us, m₁.scope = m.scope.useAll us ∧
      (a.foreseen m.setup.intake owner.element? scope).upshot =
        (us ++ (p.foreseen m.setup.intake owner.element? scope).uses,
          (p.foreseen m.setup.intake owner.element? scope).outcome) ∧
      ∀ a', p = .going a' → a'.IsSettled m.setup.intake owner.element? scope := by
  obtain ⟨out, us, leaves, heffect⟩ := h.within (P := fun s => s.SameFacts scope) hfacts
  have hahead (scopes : Nat → Scope) (hscopes : ∀ k, (scopes k).SameFacts scope) :
      (a.foreseen m.setup.intake owner.element? scope).upshot =
        ((p.effectIn m.setup.intake owner.element? scopes).after out us).upshot := by
    obtain ⟨scopes', hscopes', heq⟩ := heffect scopes hscopes
    rw [← heq, ha scopes' hscopes']
  have hforeseen : p.effectIn m.setup.intake owner.element? (fun _ => scope) =
      p.foreseen m.setup.intake owner.element? scope := by
    cases p <;> rfl
  have hconst := hahead (fun _ => scope) fun _ => ⟨rfl, rfl⟩
  rw [hforeseen] at hconst
  refine ⟨us, leaves.scope, hconst, ?_⟩
  rintro a' rfl scopes hscopes
  have heq := (hahead scopes hscopes).symm.trans hconst
  obtain ⟨huses, houtcome⟩ := Prod.mk.inj heq
  exact Prod.ext (List.append_cancel_left huses) houtcome

end Machine

end WorkBundle
