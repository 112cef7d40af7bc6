import WorkBundle.Proofs.Senders
import WorkBundle.Proofs.Shuffle

/-!
# The emissions of the workers, mixed

Workers take turns at the sink, so what it records of them is a mixture; tagged with the number of
its worker, every emission finds its way back. `Machine.Mixed` is the invariant: of each worker
that the backend has not refused, the sink has the first part of its emissions, the rest is still
ahead of it, and of nobody else it has any. `Machine.Sends` says what one step adds to the sink
and who sends it.
-/

set_option autoImplicit false

namespace WorkBundle

variable {α : Type}

def WorkItem.records (intake : Intake α) (scope : Scope) (item : WorkItem α) :
    List (Emission (Output α)) :=
  recordsOf intake scope (some item.toElement) item.script

/-- What an item emits in all, up to the point at which its processing ends. If the item `IsSteady`,
it depends on the scope only through its facts. -/
def WorkItem.emissions (scope : Scope) (item : WorkItem α) : List (Emission (Output α)) :=
  emissionsOf scope (some item.toElement) item.script

theorem WorkItem.records_collecting {intake : Intake α} {pause : Option Nat}
    (h : intake = .collecting pause fun _ => false) (scope : Scope) (item : WorkItem α) :
    item.records intake scope = item.emissions scope := by
  subst h
  exact recordsOf_collecting pause scope _ _

def Worker.ahead (intake : Intake α) (scope : Scope) (w : Worker α) : List (Emission (Output α)) :=
  match w.code? with
  | none => []
  | some a => a.remaining intake scope (some w.item.toElement)

namespace Machine

/-- What the sink has yet to record of the hook in progress. Nobody else is at work while a hook
runs, so this is told from what it does alone, from the present scope on (`Activity.effect`). -/
def hookAhead (m : Machine α) : List (Emission (Output α)) :=
  match m.producer.hook? with
  | none => []
  | some (_, a) => (a.effect m.setup.intake none m.scope).records

variable {m m' : Machine α} {move : Move α} {scope : Scope} {opened : Bool}
  {tagged : List (Nat × Emission (Output α))}

/-- Of each worker that the backend keeps, the sink has the first part of what it emits, in order,
and the rest is ahead of it (`Worker.ahead`); of nobody else it has anything. `tagged` is what the
sink has of the workers, each emission with the number of its worker. -/
structure Mixed (m : Machine α) (scope : Scope) (tagged : List (Nat × Emission (Output α))) :
    Prop where
  kept : ∀ n w, m.workers[n]? = some w → m.verdict n = .run →
    shareOf n tagged ++ w.ahead m.setup.intake scope = w.item.records m.setup.intake scope
  other : ∀ n, (∀ w, m.workers[n]? = some w → m.verdict n ≠ .run) → shareOf n tagged = []

namespace Mixed

theorem nil (hworkers : m.workers = []) : m.Mixed scope [] where
  kept := fun n w hw _ => by
    rw [hworkers] at hw
    cases hw
  other := fun _ _ => rfl

theorem same (h : m.Mixed scope tagged) (hsetup : m'.setup = m.setup)
    (hworkers : m'.workers = m.workers) : m'.Mixed scope tagged := by
  refine ⟨fun n w hw hv => ?_, fun n hn => h.other n fun w hw => ?_⟩
  · rw [hworkers] at hw
    rw [verdict, hsetup] at hv
    rw [hsetup]
    exact h.kept n w hw hv
  · have := hn w (by rw [hworkers]; exact hw)
    rwa [verdict, hsetup] at this

theorem more (h : m.Mixed scope tagged) (hsetup : m'.setup = m.setup) {item : WorkItem α}
    (hworkers : m'.workers = m.workers ++ [⟨item, .queued⟩]) : m'.Mixed scope tagged := by
  refine ⟨fun n w hw hv => ?_, fun n hn => h.other n fun w hw => ?_⟩
  · rw [hworkers] at hw
    rw [verdict, hsetup] at hv
    rw [hsetup]
    rcases getElem?_concat_cases hw with ⟨hlast, rfl⟩ | hw
    · have hnone : shareOf n tagged = [] := by
        refine h.other n fun w hw => ?_
        have hlt := (List.getElem?_eq_some_iff.mp hw).1
        omega
      rw [hnone]
      rfl
    · exact h.kept n w hw hv
  · have := hn w (by rw [hworkers]; exact getElem?_append_of_some hw _)
    rwa [verdict, hsetup] at this

theorem send (h : m.Mixed scope tagged) (hsetup : m'.setup = m.setup) {n : Nat} {w : Worker α}
    {p : WorkerPhase α} {out : List (Emission (Output α))} (hw : m.workers[n]? = some w)
    (hworkers : m'.workers = (m.setPhase n p).workers)
    (hahead : m.verdict n = .run → w.ahead m.setup.intake scope =
      out ++ ({ w with phase := p } : Worker α).ahead m.setup.intake scope)
    (hrefused : m.verdict n ≠ .run → out = []) : m'.Mixed scope (tagged ++ out.map (n, ·)) := by
  refine ⟨fun k w' hw' hv => ?_, fun k hk => ?_⟩
  · rw [hworkers] at hw'
    rw [verdict, hsetup] at hv
    rw [hsetup, shareOf_append]
    rcases worker_of_setPhase hw hw' with ⟨rfl, rfl⟩ | ⟨hne, hw'⟩
    · rw [shareOf_self, List.append_assoc, ← hahead hv]
      exact h.kept k w hw hv
    · rw [shareOf_other hne, List.append_nil]
      exact h.kept k w' hw' hv
  · rw [shareOf_append]
    by_cases hkn : k = n
    · subst hkn
      have hv := hk _ (by rw [hworkers]; exact setPhase_self hw p)
      rw [verdict, hsetup] at hv
      rw [hrefused hv, List.map_nil, shareOf_nil, List.append_nil]
      exact h.other k fun _ _ => hv
    · rw [shareOf_other hkn, List.append_nil]
      refine h.other k fun w' hw' => ?_
      have hv := hk w' (by rw [hworkers, setPhase_other hkn]; exact hw')
      rwa [verdict, hsetup] at hv

theorem aside (h : m.Mixed scope tagged) (hsetup : m'.setup = m.setup) {n : Nat} {w : Worker α}
    {p : WorkerPhase α} (hw : m.workers[n]? = some w)
    (hworkers : m'.workers = (m.setPhase n p).workers)
    (hcode : m.verdict n = .run → p.code? w.item = w.code?) : m'.Mixed scope tagged := by
  have hahead (hv : m.verdict n = .run) : w.ahead m.setup.intake scope =
      [] ++ ({ w with phase := p } : Worker α).ahead m.setup.intake scope := by
    rw [List.nil_append, Worker.ahead, Worker.ahead, ← hcode hv]
    rfl
  have hsend := h.send hsetup hw hworkers hahead fun _ => rfl
  rwa [List.map_nil, List.append_nil] at hsend

end Mixed

/-! ## One step -/

/-- What a step adds to the sink, and who sends it. A step of nobody changes no scope either, and
leaves the hook in progress as it is unless the finish hook begins; a step of a worker has that
worker in flight, which excludes a hook. -/
inductive Sends (m m' : Machine α) (scope : Scope) : Prop
  | nobody (output : m'.output = m.output) (shared : m'.scope = m.scope)
      (mixed : ∀ tagged, m.Mixed scope tagged → m'.Mixed scope tagged)
      (hook : m'.producer.hook? = m.producer.hook? ∨
        m.producer = .drained ∧
          m'.producer = .finishing { script := m.setup.processor.finishHook })
  | worker {n : Nat} {out : List (Emission (Output α))} (output : m'.output = m.output ++ out)
      (mixed : ∀ tagged, m.Mixed scope tagged → m'.Mixed scope (tagged ++ out.map (n, ·)))
      (producer : m'.producer = m.producer) (flight : inFlight m.workers ≠ 0)
  | hook {out : List (Emission (Output α))} (output : m'.output = m.output ++ out)
      (mixed : ∀ tagged, m.Mixed scope tagged → m'.Mixed scope tagged)
      (ahead : m.hookAhead = out ++ m'.hookAhead)
      (phase : m.producer.hook?.isSome = true)
      (next : m'.producer.hook?.isSome = true ∨ m'.producer = .idle)

/-- What emissions depend on does not change: the facts of the scope and the supply (`Steady`), and
all code is steady. -/
structure Ready (m : Machine α) (scope : Scope) (opened : Bool) : Prop where
  steady : m.Steady scope opened
  code : m.EachCode (Action.IsSteady opened)

theorem Barred.runs (h : m.Barred) {n : Nat} {w : Worker α} {a : Activity α}
    (hw : m.workers[n]? = some w) (hp : w.phase = .working a) : m.verdict n = .run := by
  by_contra hv
  rcases h.refused n (List.getElem?_eq_some_iff.mp hw).1 hv with ⟨-, w', hw', hp'⟩ | ⟨w', hw', hp'⟩
  all_goals
    obtain rfl : w' = w := Option.some.inj (hw'.symm.trans hw)
    rw [hp] at hp'
    cases hp'

/-- The emissions that a step adds are the next ones of whoever sends them. For a worker that is
`act_emits`, and for a hook, which need not be steady, `act_carriesOut`. -/
theorem sends (h : m.Ready scope opened) (hb : m.Barred) (hj : m.Judged m.producer)
    (ht : Transition m move m') (hmove : move.IsSteady opened) : m.Sends m' scope := by
  have hsetup : m'.setup = m.setup := (cellStep ht).2.setup
  have hnobody (silent : m.Silent m' move)
      (mixed : ∀ tagged, m.Mixed scope tagged → m'.Mixed scope tagged) : m.Sends m' scope :=
    .nobody (by rw [output, output, silent.arrivals]) silent.scope mixed (silent.hook hmove.inner)
  cases codeStep hj ht with
  | still silent workers => exact hnobody silent fun _ hm => hm.same hsetup workers
  | more silent _ workers => exact hnobody silent fun _ hm => hm.more hsetup workers
  | @aside n w p silent worker workers code =>
    refine hnobody silent fun _ hm => hm.aside hsetup worker workers fun hv => ?_
    rcases code with ⟨hcode, -⟩ | ⟨-, hdropped | hrefused⟩
    · exact hcode
    · exact absurd hdropped (hmove.kept n)
    · exact absurd hv hrefused
  | @worker n w a p m₁ worker phase act traces workers producer =>
    have hcode : w.code? = some a := by rw [Worker.code?, phase]; rfl
    have hrun : m.verdict n = .run := hb.runs worker phase
    -- What the sink gets now is the first part of what was ahead.
    obtain ⟨out, hout, hrest⟩ := act_emits act h.steady (h.code n w a worker hcode)
    have houtput : m'.output = m.output ++ out := by
      rw [← hout, output, output, traces.arrivals]
    refine .worker (n := n) houtput (fun _ hm => ?_) producer ?_
    · refine hm.send hsetup worker workers (fun _ => ?_) fun hv => absurd hrun hv
      rw [Worker.ahead, hcode, Worker.ahead, Worker.code?, Progress.phase_code?]
      refine hrest.trans (congrArg (out ++ ·) ?_)
      cases p <;> rfl
    · exact inFlight_ne_zero worker (by rw [phase]; rfl)
  | @hook hook a p m₁ phase act traces workers next ended =>
    obtain ⟨out, us, leaves, heffect⟩ := act_carriesOut act h.steady.supply fun hsome => by cases hsome
    have houtput : m'.output = m.output ++ out := by
      rw [← leaves.output, output, output, traces.arrivals]
    refine .hook houtput (fun _ hm => hm.same hsetup workers) ?_ (by rw [phase]; rfl) ?_
    · rw [hookAhead, phase, hookAhead, next, hsetup, traces.scope]
      refine (congrArg Effect.records heffect).trans (congrArg (out ++ ·) ?_)
      cases p <;> rfl
    · cases p with
      | going a' => exact Or.inl (by rw [next]; rfl)
      | _ => exact Or.inr (ended rfl)

theorem Ready.step (h : m.Ready scope opened) (hj : m.Judged m.producer)
    (ht : Transition m move m') (hsupply : opened = true → move ≠ .closeSupply)
    (hitem : ∀ item, m.producer = .handing item → ∀ action ∈ item.script, action.IsSteady opened) :
    m'.Ready scope opened where
  steady := h.steady.step (codeStep hj ht) hsupply
  code := h.code.step (codeStep hj ht) hitem

end Machine

end WorkBundle
