import WorkBundle.Builder
import WorkBundle.Proofs.Barrier
import WorkBundle.Proofs.GateCalls
import WorkBundle.Proofs.Holdings
import Mathlib.Data.List.Induction

/-!
# Every way to an engine

A parallelism can be asked for in several places (`Entry`), and there is one rule for all of them:
what lies in the range is taken as it is, and what does not is refused with a rule that names it
(`Entry.capacity_eq`).

What is built is put together by calls that may be made again and again (`BuilderCall`). A call that
is refused gives nothing, and leaves its caller what it had. So a builder tells of all its calls
only the last parallelism that was accepted and the last processor that was bound.

An engine or a gate that was made in any of these ways has room for somebody and has no more room
than a number of 32 bits can say (`Gate.Full`), and stays so however it runs. This is what a drain
rests on: the number of tickets that it claims is narrowed on its way to the line, and a number that
were cut there would let the drain through while work is in flight.
-/

set_option autoImplicit false

namespace WorkBundle

variable {α : Type}

/-! ## One rule for every request -/

/-- A request that is accepted. The bounds are written out rather than taken from `maxParallelism`,
so that the statements below say which numbers they are about. -/
def InRange (requested : Int) : Prop := 1 ≤ requested ∧ requested ≤ 65536

instance (requested : Int) : Decidable (InRange requested) :=
  inferInstanceAs (Decidable (1 ≤ requested ∧ requested ≤ 65536))

def refusal (requested : Int) : ValidationError :=
  if requested ≤ 0 then .nonPositiveParallelism requested
  else .parallelismOutOfRange requested 65536

/-- One answer to a request, in terms of the number alone: the number itself, or the rule it breaks
(`refusal`). -/
def ruling (requested : Int) : Except ExecutionError Nat :=
  if InRange requested then .ok requested.toNat
  else .error (.invalidConfiguration (refusal requested))

theorem ruling_eq_ok_iff (n : Int) (k : Nat) : ruling n = .ok k ↔ InRange n ∧ (k : Int) = n := by
  rw [ruling]
  constructor
  · intro h
    split at h
    · rename_i hn
      cases h
      have hone : 1 ≤ n := hn.1
      exact ⟨hn, by omega⟩
    · cases h
  · rintro ⟨hn, hk⟩
    rw [if_pos hn]
    congr 1
    omega

theorem ruling_of_not_inRange {n : Int} (h : ¬ InRange n) :
    ruling n = .error (.invalidConfiguration (refusal n)) := if_neg h

namespace Parallelism

theorem ofInt_of_inRange {n : Int} (h : InRange n) :
    ∃ p : Parallelism, ofInt n = .ok p ∧ (p.count : Int) = n := by
  obtain ⟨hone, hmax⟩ := h
  have hle : n.toNat ≤ WorkBundle.maxParallelism := by
    show n.toNat ≤ 65536
    omega
  refine ⟨⟨n.toNat, by omega, hle⟩, ?_, ?_⟩
  · rw [ofInt, dif_neg (by omega), dif_pos hle]
  · show (n.toNat : Int) = n
    omega

theorem ofInt_of_not_inRange {n : Int} (h : ¬ InRange n) : ofInt n = .error (refusal n) := by
  rw [ofInt, refusal]
  by_cases hpos : n ≤ 0
  · rw [dif_pos hpos, if_pos hpos]
  · have hbig : ¬ n.toNat ≤ WorkBundle.maxParallelism := by
      intro hle
      have hle : n.toNat ≤ 65536 := hle
      exact h ⟨by omega, by omega⟩
    rw [dif_neg hpos, dif_neg hbig, if_neg hpos]
    rfl

end Parallelism

theorem requestParallelism_of_inRange {n : Int} (h : InRange n) :
    ∃ p : Parallelism, requestParallelism n = .ok p ∧ (p.count : Int) = n := by
  obtain ⟨p, hp, hcount⟩ := Parallelism.ofInt_of_inRange h
  exact ⟨p, by rw [requestParallelism, hp], hcount⟩

theorem requestParallelism_of_not_inRange {n : Int} (h : ¬ InRange n) :
    requestParallelism n = .error (.invalidConfiguration (refusal n)) := by
  rw [requestParallelism, Parallelism.ofInt_of_not_inRange h]

/-- Whatever is made of an accepted request, its capacity follows the rule. Every way to an engine
is `requestParallelism` with a `make` of its own. -/
theorem requestParallelism_map {β : Type} (n : Int) (make : Parallelism → β) (capacity : β → Nat)
    (h : ∀ p, capacity (make p) = p.count) :
    ((requestParallelism n).map make).map capacity = ruling n := by
  by_cases hn : InRange n
  · obtain ⟨p, hp, hcount⟩ := requestParallelism_of_inRange hn
    rw [hp, (ruling_eq_ok_iff n p.count).mpr ⟨hn, hcount⟩, ← h p]
    rfl
  · rw [requestParallelism_of_not_inRange hn, ruling_of_not_inRange hn]
    rfl

theorem requestParallelism_map_eq_ok {β : Type} {n : Int} {make : Parallelism → β} {b : β}
    (h : (requestParallelism n).map make = .ok b) :
    InRange n ∧ ∃ p : Parallelism, b = make p ∧ (p.count : Int) = n := by
  by_cases hn : InRange n
  · obtain ⟨p, hp, hcount⟩ := requestParallelism_of_inRange hn
    rw [hp] at h
    cases h
    exact ⟨hn, p, rfl, hcount⟩
  · rw [requestParallelism_of_not_inRange hn] at h
    cases h

/-- A place where a parallelism can be asked for, with all that stands beside the number there: a
builder without or with a processor, a configuration, an engine that is made without a builder, or a
gate that stands alone. -/
inductive Entry (α : Type) where
  | unbound (u : Unbound)
  | bound (b : Bound α)
  | config (options : Options) (processor : Processor α)
  | engine (processor : Processor α) (backend : Backend) (intake : Intake α) (scope : Scope)
  | gate

namespace Entry

/-- Nothing but the parallelism can be wrong here. Only a configuration has other settings, its
options. -/
def Open : Entry α → Prop
  | .config options _ => options.validate = .ok ()
  | .unbound _ | .bound _ | .engine .. | .gate => True

def capacity (requested : Int) : Entry α → Except ExecutionError Nat
  | .unbound u => (u.withParallelism requested).map (·.parallelism.count)
  | .bound b => (b.withParallelism requested).map (·.parallelism.count)
  | .config options processor =>
    (Bound.ofConfig { maxParallelism := some requested, options } processor).map
      (·.1.parallelism.count)
  | .engine processor backend intake scope =>
    (Machine.ofInt processor requested backend intake scope).map (·.gate.capacity.count)
  | .gate => (Gate.ofInt requested : Except ExecutionError (Gate Nat)).map (·.capacity.count)

end Entry

theorem Bound.ofConfig_of_valid {c : Config} (h : c.options.validate = .ok ())
    (processor : Processor α) :
    Bound.ofConfig c processor = (requestParallelism c.effectiveParallelism).map fun parallelism =>
      ({ processor, parallelism }, c.options) := by
  rw [Bound.ofConfig, h, Unbound.withParallelism]
  cases requestParallelism c.effectiveParallelism <;> rfl

theorem Gate.ofInt_eq {ι : Type} (n : Int) :
    (Gate.ofInt n : Except ExecutionError (Gate ι)) = (requestParallelism n).map .new := by
  rw [Gate.ofInt, requestParallelism]
  cases Parallelism.ofInt n <;> rfl

/-- Every place answers by the one rule (`ruling`), with the number it was asked for. -/
theorem Entry.capacity_eq {e : Entry α} (h : e.Open) (n : Int) : e.capacity n = ruling n := by
  cases e with
  | unbound u => exact requestParallelism_map n _ _ fun _ => rfl
  | bound b => exact requestParallelism_map n _ _ fun _ => rfl
  | config options processor =>
    have hvalid : options.validate = .ok () := h
    rw [capacity, Bound.ofConfig_of_valid hvalid]
    exact requestParallelism_map n _ _ fun _ => rfl
  | engine processor backend intake scope => exact requestParallelism_map n _ _ fun _ => rfl
  | gate =>
    rw [capacity, Gate.ofInt_eq]
    exact requestParallelism_map n _ _ fun _ => rfl

/-! ## Chains of calls -/

inductive Builder (α : Type) where
  | unbound (u : Unbound)
  | bound (b : Bound α)

/-- A call on what has been put together: for another parallelism, for another processor, or for a
copy. -/
inductive BuilderCall (α : Type) where
  | size (requested : Int)
  | bind (processor : Processor α)
  | copy

namespace Builder

def parallelism : Builder α → Parallelism
  | .unbound u => u.parallelism
  | .bound b => b.parallelism

def processor? : Builder α → Option (Processor α)
  | .unbound _ => none
  | .bound b => some b.processor

def call : Builder α → BuilderCall α → Except ExecutionError (Builder α)
  | .unbound u, .size requested => (u.withParallelism requested).map .unbound
  | .bound b, .size requested => (b.withParallelism requested).map .bound
  | .unbound u, .bind processor => .ok (.bound (u.bind processor))
  | .bound b, .bind processor => .ok (.bound (b.rebind processor))
  | b, .copy => .ok b

/-- What the caller has after a call: what the call gave, or what it had before. A request that
gives an error leaves the builder as it was, which `lastAccepted` relies on. -/
def next (b : Builder α) (c : BuilderCall α) : Builder α := (b.call c).toOption.getD b

def after (b : Builder α) (calls : List (BuilderCall α)) : Builder α := calls.foldl next b

@[simp] theorem after_nil (b : Builder α) : b.after [] = b := rfl

@[simp] theorem after_concat (b : Builder α) (calls : List (BuilderCall α)) (c : BuilderCall α) :
    b.after (calls ++ [c]) = (b.after calls).next c := by
  simp [after]

end Builder

def BuilderCall.requested? : BuilderCall α → Option Int
  | .size requested => some requested
  | .bind _ | .copy => none

def BuilderCall.processor? : BuilderCall α → Option (Processor α)
  | .bind processor => some processor
  | .size _ | .copy => none

/-- The last request that was accepted, or sixteen, the standard, if none was. -/
def lastAccepted (requests : List Int) : Int :=
  ((requests.filter fun n => InRange n).getLast?).getD 16

theorem lastAccepted_concat (requests : List Int) (n : Int) :
    lastAccepted (requests ++ [n]) = if InRange n then n else lastAccepted requests := by
  by_cases hn : InRange n <;> simp [lastAccepted, hn]

/-- Where a chain of calls begins: with nothing chosen, or with what a configuration asks for. -/
inductive Beginning (α : Type) where
  | standard
  | configured (c : Config) (processor : Processor α)

namespace Beginning

def builder : Beginning α → Except ExecutionError (Builder α)
  | .standard => .ok (.unbound {})
  | .configured c processor => (Bound.ofConfig c processor).map fun built => .bound built.1

def requests : Beginning α → List Int
  | .standard => []
  | .configured c _ => c.maxParallelism.toList

def processors : Beginning α → List (Processor α)
  | .standard => []
  | .configured _ processor => [processor]

theorem builder_configured {c : Config} (h : c.options.validate = .ok ())
    (processor : Processor α) : (configured c processor).builder =
      (requestParallelism c.effectiveParallelism).map fun parallelism =>
        .bound { processor, parallelism } := by
  rw [builder, Bound.ofConfig_of_valid h]
  cases requestParallelism c.effectiveParallelism <;> rfl

end Beginning

/-- What a builder tells of the requests and the bindings that led to it: the last request that was
accepted, and the last processor. -/
structure Builder.Tells (b : Builder α) (requests : List Int) (processors : List (Processor α)) :
    Prop where
  parallelism : (b.parallelism.count : Int) = lastAccepted requests
  processor : b.processor? = processors.getLast?

namespace Builder.Tells

variable {b : Builder α} {requests : List Int} {processors : List (Processor α)}

theorem beginning {s : Beginning α} (h : s.builder = .ok b) : b.Tells s.requests s.processors := by
  cases s with
  | standard =>
    cases h
    exact ⟨rfl, rfl⟩
  | configured c processor =>
    cases hv : c.options.validate with
    | error rule =>
      rw [Beginning.builder, Bound.ofConfig, hv] at h
      cases h
    | ok =>
      rw [Beginning.builder_configured hv] at h
      obtain ⟨hn, p, rfl, hcount⟩ := requestParallelism_map_eq_ok h
      refine ⟨hcount.trans ?_, rfl⟩
      rw [Config.effectiveParallelism] at hn ⊢
      cases hmax : c.maxParallelism with
      | none => simp [Beginning.requests, hmax, lastAccepted, Parallelism.standard]
      | some n =>
        rw [hmax] at hn
        have hn : InRange n := hn
        simp [Beginning.requests, hmax, lastAccepted, hn]

theorem size (h : b.Tells requests processors) (n : Int) :
    (b.next (.size n)).Tells (requests ++ [n]) processors := by
  by_cases hn : InRange n
  · obtain ⟨p, hp, hcount⟩ := requestParallelism_of_inRange hn
    have hlast : (p.count : Int) = lastAccepted (requests ++ [n]) := by
      rw [lastAccepted_concat, if_pos hn, hcount]
    cases b with
    | unbound u =>
      simp only [next, call, Unbound.withParallelism, hp]
      exact ⟨hlast, h.processor⟩
    | bound b =>
      simp only [next, call, Bound.withParallelism, hp]
      exact ⟨hlast, h.processor⟩
  · have hrefused : b.next (.size n) = b := by
      cases b <;>
        simp only [next, call, Unbound.withParallelism, Bound.withParallelism,
          requestParallelism_of_not_inRange hn] <;> rfl
    rw [hrefused]
    refine ⟨?_, h.processor⟩
    rw [lastAccepted_concat, if_neg hn]
    exact h.parallelism

theorem bind (h : b.Tells requests processors) (processor : Processor α) :
    (b.next (.bind processor)).Tells requests (processors ++ [processor]) := by
  cases b <;> exact ⟨h.parallelism, by rw [List.getLast?_concat]; rfl⟩

theorem next (h : b.Tells requests processors) (c : BuilderCall α) :
    (b.next c).Tells (requests ++ c.requested?.toList) (processors ++ c.processor?.toList) := by
  cases c with
  | size n => simpa [BuilderCall.requested?, BuilderCall.processor?] using h.size n
  | bind processor =>
    simpa [BuilderCall.requested?, BuilderCall.processor?] using h.bind processor
  | copy =>
    have hsame : b.next .copy = b := by cases b <;> rfl
    simpa [BuilderCall.requested?, BuilderCall.processor?, hsame] using h

theorem after (h : b.Tells requests processors) (calls : List (BuilderCall α)) :
    (b.after calls).Tells (requests ++ calls.filterMap (·.requested?))
      (processors ++ calls.filterMap (·.processor?)) := by
  -- From behind: the last call is the one that may overrule all before it.
  induction calls using List.reverseRecOn with
  | nil => simpa using h
  | append_singleton calls c ih =>
    rw [after_concat]
    have hnext := ih.next c
    cases hr : c.requested? <;> cases hp : c.processor? <;>
      simpa [hr, hp, List.filterMap_append] using hnext

end Builder.Tells

/-! ## What is made -/

/-- An engine that was just made, from a builder after any calls (`BuilderCall`), or for a number.
-/
inductive Made : Machine α → Int → Prop
  | built {s : Beginning α} {b₀ : Builder α} {calls : List (BuilderCall α)} {b : Bound α}
      (began : s.builder = .ok b₀) (bound : b₀.after calls = .bound b) (backend : Backend)
      (intake : Intake α) (scope : Scope) :
      Made (b.engine backend intake scope)
        (lastAccepted (s.requests ++ calls.filterMap (·.requested?)))
  | direct {processor : Processor α} {n : Int} {backend : Backend} {intake : Intake α}
      {scope : Scope} {m : Machine α}
      (made : Machine.ofInt processor n backend intake scope = .ok m) : Made m n

theorem Made.new {m : Machine α} {n : Int} (h : Made m n) :
    ∃ setup scope, m = .new setup scope ∧ (setup.parallelism.count : Int) = n := by
  cases h with
  | @built s b₀ calls b began bound backend intake scope =>
    refine ⟨_, _, rfl, ?_⟩
    have htells := ((Builder.Tells.beginning began).after calls).parallelism
    rw [bound] at htells
    exact htells
  | @direct processor n backend intake scope _ made =>
    obtain ⟨-, p, rfl, hcount⟩ := requestParallelism_map_eq_ok made
    exact ⟨_, _, rfl, hcount⟩

/-- The gate has as many tickets as were asked for, and a drain asks it for all of them: the number
is the one requested, at least one, and unchanged by the narrowing to 32 bits (`GateRequest.claim`).
-/
structure Gate.Full {ι : Type} (g : Gate ι) (n : Int) : Prop where
  count_eq : (g.capacity.count : Int) = n
  one_le : 1 ≤ g.capacity.count
  le_max : g.capacity.count ≤ 65536
  narrowed : (UInt32.ofNat g.capacity.count).toNat = g.capacity.count
  claim_eq : GateRequest.everything.claim g.capacity.count = g.capacity.count

theorem Gate.full {ι : Type} {g : Gate ι} {n : Int} (h : (g.capacity.count : Int) = n) :
    g.Full n where
  count_eq := h
  one_le := g.capacity.one_le
  le_max := g.capacity.le_max
  narrowed := GateRequest.everything.claim_eq g.capacity
  claim_eq := GateRequest.everything.claim_eq g.capacity

/-- What a run of an engine says about its drain: it asks for every ticket, and when it has got
them, nobody else has any. -/
theorem Machine.drain_claims {m : Machine α} (h : m.TicketsOk) :
    (m.producer = .draining → ∀ c ∈ m.gate.permits.waiting ++ m.gate.permits.granted,
      c.need = m.gate.capacity.count) ∧
    (m.producer = .drained → m.gate.permits.free = 0 ∧ inFlight m.workers = 0) := by
  refine ⟨fun hp c hc => ?_, fun hp => ?_⟩
  · obtain ⟨r, hr, hneed⟩ := h.asked c.demand (List.mem_map_of_mem hc)
    rw [hp] at hr
    cases hr
    exact hneed
  · refine ⟨?_, h.inFlight_zero (Or.inl hp)⟩
    have hbalance := h.balance
    have hfree : m.gate.permits.free ≤ m.gate.permits.total := by
      rw [Permits.total]
      omega
    rw [hp] at hbalance
    have hheld : (Phase.drained : Phase α).tickets m.gate.capacity.count = m.gate.capacity.count :=
      rfl
    omega

theorem GateCalls.Sound.drain_claims {s : GateCalls} (h : s.Sound) :
    (∀ c ∈ s.waiting, c.request = .everything →
      ∀ e ∈ s.gate.permits.waiting ++ s.gate.permits.granted, e.id = c.serial →
        e.need = s.gate.capacity.count) ∧
    (0 < s.drains → s.gate.permits.free = 0 ∧ s.tickets = 0) := by
  refine ⟨fun c hc hr e he hid => ?_, fun hd => ?_⟩
  · obtain ⟨r, hasks, hneed⟩ := h.balanced.asked e.demand (List.mem_map_of_mem he)
    have hown := h.asks_eq hc
    rw [← hid] at hown
    have hr' : r = .everything := (Option.some.inj (hasks.symm.trans hown)).trans hr
    subst hr'
    exact hneed
  · obtain ⟨-, htickets, -, hfree⟩ := h.drained hd
    exact ⟨hfree, htickets⟩

/-- **One range on every way to an engine.** Every place where a parallelism can be asked for takes
`1` up to `65536` as it is, and refuses everything else with the same rule, which names the number.
After any calls, a builder has the parallelism of the last request that was accepted, and the
processor that was bound last. So every engine and every gate that can be made has at least one
ticket and at most `65536`, however it runs from then on; their number is not cut on its way to the
line, and a drain asks for all of them, and has all of them when it succeeds. -/
theorem one_range_everywhere :
    (∀ e : Entry α, e.Open → ∀ n,
      (∀ k, e.capacity n = .ok k ↔ (1 ≤ n ∧ n ≤ 65536) ∧ (k : Int) = n) ∧
      (¬ (1 ≤ n ∧ n ≤ 65536) →
        e.capacity n = .error (.invalidConfiguration (refusal n)))) ∧
    (∀ (s : Beginning α) (b : Builder α), s.builder = .ok b → ∀ calls,
      ((b.after calls).parallelism.count : Int) =
          lastAccepted (s.requests ++ calls.filterMap (·.requested?)) ∧
        (b.after calls).processor? =
          (s.processors ++ calls.filterMap (·.processor?)).getLast?) ∧
    (∀ (m₀ : Machine α) (n : Int), Made m₀ n → ∀ moves m, m₀.run moves = some m →
      m.gate.Full n ∧
        (m.producer = .draining → ∀ c ∈ m.gate.permits.waiting ++ m.gate.permits.granted,
          c.need = m.gate.capacity.count) ∧
        (m.producer = .drained → m.gate.permits.free = 0 ∧ Machine.inFlight m.workers = 0)) ∧
    ∀ (g : Gate Nat) (n : Int), Gate.ofInt n = .ok g → ∀ events,
      let s := (GateCalls.new g).after events
      s.gate.Full n ∧
        (∀ c ∈ s.waiting, c.request = .everything →
          ∀ e ∈ s.gate.permits.waiting ++ s.gate.permits.granted, e.id = c.serial →
            e.need = s.gate.capacity.count) ∧
        (0 < s.drains → s.gate.permits.free = 0 ∧ s.tickets = 0) := by
  refine ⟨fun e he n => ?_, fun s b hb calls => ?_, fun m₀ n hmade moves m hrun => ?_,
    fun g n hg events => ?_⟩
  · rw [e.capacity_eq he]
    exact ⟨ruling_eq_ok_iff n, ruling_of_not_inRange⟩
  · have htells := (Builder.Tells.beginning hb).after calls
    exact ⟨htells.parallelism, htells.processor⟩
  · obtain ⟨setup, scope, rfl, hcount⟩ := hmade.new
    refine ⟨Gate.full ?_, Machine.drain_claims (Machine.drains hrun).tickets⟩
    rw [Machine.capacity_run hrun]
    exact hcount
  · intro s
    rw [Gate.ofInt_eq] at hg
    obtain ⟨-, p, rfl, hcount⟩ := requestParallelism_map_eq_ok hg
    refine ⟨Gate.full ?_, ((GateCalls.Sound.new p).after events).drain_claims⟩
    rw [GateCalls.after_capacity]
    exact hcount

/-- A configuration asks for four. Two requests on the edges of the range are refused, one between
them is accepted, and another processor is bound. An engine of the greatest size has drained, and
nothing is free; at a gate of this size a drain waits for one ticket, and lacks just this one. -/
theorem one_range_everywhere_at_the_edges :
    let early : Processor Nat := { name := "early" }
    let late : Processor Nat := { name := "late" }
    let config : Config := { maxParallelism := some 4, options := { jobName := some "job" } }
    let calls : List (BuilderCall Nat) := [.size 0, .bind late, .size 7, .copy, .size 65537]
    (Entry.config config.options early).capacity 65537 =
        .error (.invalidConfiguration (.parallelismOutOfRange 65537 65536)) ∧
      (∃ b, (Beginning.configured config early).builder = .ok b ∧
        ((b.after calls).parallelism.count : Int) = 7 ∧ (b.after calls).processor? = some late) ∧
      (∃ m₀ m, Machine.ofInt late 65536 = .ok m₀ ∧
        m₀.run [.call .start, .producer, .call .finish, .producer] = some m ∧
        m.gate.Full 65536 ∧ m.gate.permits.free = 0) ∧
      ∃ g : Gate Nat, Gate.ofInt 65536 = .ok g ∧
        let s := (GateCalls.new g).after
          [.move (.request "early" .ticket), .ask 0, .move (.request "drain" .everything), .ask 1]
        s.gate.Full 65536 ∧ s.gate.permits.waiting = [⟨1, 65536, 65535⟩] := by
  intro early late config calls
  obtain ⟨hentry, hbuilder, hengine, hgate⟩ := one_range_everywhere (α := Nat)
  have hvalid : config.options.validate = .ok () := by decide +kernel
  refine ⟨?_, ⟨.bound { processor := early, parallelism := { count := 4 } }, rfl, ?_⟩, ?_,
    ⟨.new { count := 65536 }, rfl, (hgate _ _ rfl _).1, by decide +kernel⟩⟩
  · exact (hentry (.config config.options early) hvalid 65537).2 (by decide)
  · exact hbuilder (.configured config early) _ rfl calls
  · let made : Machine Nat := .new { processor := late, parallelism := { count := 65536 } }
    have hmade : Machine.ofInt late 65536 = .ok made := rfl
    have hout : (made.run [.call .start, .producer, .call .finish, .producer]).map (·.producer) =
        some .drained := rfl
    obtain ⟨m, hrun, hp⟩ := Option.map_eq_some_iff.mp hout
    obtain ⟨hfull, -, hall⟩ := hengine _ _ (.direct hmade) _ m hrun
    exact ⟨made, m, hmade, hrun, hfull, (hall hp).1⟩

end WorkBundle
