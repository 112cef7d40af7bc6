import WorkBundle.Proofs.Gate
import WorkBundle.Proofs.Senders

/-!
# The output lock

A worker that wants to emit waits for the output lock, holds it while the sink takes the emission
in, and gives it back. The lock is a gate with a single ticket, at which every worker is a caller of
its own; so what is known of gates is known of it (`Machine.LockOk`): it is free, or on its way to
one worker, or one worker writes.
-/

set_option autoImplicit false

namespace WorkBundle

theorem maxParallelism_pos : 0 < maxParallelism := by decide

def Parallelism.single : Parallelism := ⟨1, Nat.zero_lt_one, maxParallelism_pos⟩

@[simp] theorem Parallelism.count_single : Parallelism.single.count = 1 := rfl

variable {α : Type}

/-- How code stands to the output lock. The emission in progress tells: there is none, it waits
(`Emitting.queued`), or the sink is taking it in. -/
inductive LockUse where
  | away
  | waits
  | holds
  deriving DecidableEq

def LockUse.request? : LockUse → Option GateRequest
  | .waits => some .ticket
  | _ => none

def Activity.lockUse (a : Activity α) : LockUse :=
  match a.emitting with
  | none => .away
  | some (.queued _) => .waits
  | some (.writing _) => .holds

/-- Code waits for the lock just when its emission does. `Machine.awake` looks at the wait and the
lock at the emission, so the two must agree. -/
def Activity.IsCoherent (a : Activity α) : Prop := a.wait = .lock ↔ a.lockUse = .waits

def WorkerPhase.lockUse : WorkerPhase α → LockUse
  | .working a => a.lockUse
  | _ => .away

def Progress.lockUse : Progress α → LockUse
  | .going a => a.lockUse
  | .over _ => .away

theorem Progress.phase_lockUse (n identity : Nat) (p : Progress α) :
    (p.phase n identity).lockUse = p.lockUse := by
  cases p with
  | going => rfl
  | «over» outcome => cases outcome <;> rfl

/-- What one worker does with the lock: nothing, or it asks, takes what it was granted, gives it
back, or leaves the line. `lockMove_of_act` says that there is nothing else. -/
inductive LockMove (n : Nat) : Permits Nat → Permits Nat → LockUse → LockUse → Prop
  | keep {lock : Permits Nat} {use : LockUse} : LockMove n lock lock use use
  | asks {lock : Permits Nat} : LockMove n lock (lock.join n 1) .away .waits
  | takes {lock : Permits Nat} (granted : lock.isGranted n = true) :
      LockMove n lock (lock.collect n) .waits .holds
  | gives {lock : Permits Nat} : LockMove n lock (lock.release 1) .holds .away
  | leaves {lock : Permits Nat} : LockMove n lock (lock.leave n) .waits .away

namespace Machine

variable {m m' m₁ : Machine α} {n : Nat} {w : Worker α} {a : Activity α} {p : Progress α}

/-! ## One step -/

def lockUse (m : Machine α) (n : Nat) : LockUse :=
  match m.workers[n]? with
  | some w => w.phase.lockUse
  | none => .away

theorem lockUse_of_worker (hw : m.workers[n]? = some w) : m.lockUse n = w.phase.lockUse := by
  rw [lockUse, hw]

theorem lockMove_of_write {item : WorkItem α} {steps : List (Delivery α)}
    (h : m.write (.worker n item) a steps = (m₁, p)) :
    LockMove n m.lock m₁.lock .holds p.lockUse := by
  cases steps with
  | nil =>
    cases h
    exact .gives
  | cons d steps =>
    cases d with
    | crash =>
      cases h
      exact .gives
    | _ =>
      cases h
      exact .keep

theorem lockMove_of_performed {item : WorkItem α} {action : Action α} (ha : a.emitting = none)
    (h : Performed m (.worker n item) a action m₁ p) :
    LockMove n m.lock m₁.lock .away p.lockUse := by
  cases h with
  | requests _ request =>
    cases request
    exact .asks
  | goesOn =>
    rw [Progress.lockUse, Activity.lockUse, ha]
    exact .keep
  | ends | denied => exact .keep

theorem lockMove_of_act {item : WorkItem α} (h : m.act (.worker n item) a = (m₁, p))
    (hgranted : a.lockUse = .waits → m.lock.isGranted n = true) :
    LockMove n m.lock m₁.lock a.lockUse p.lockUse := by
  cases acted h with
  | granted queued =>
    have hwaits : a.lockUse = .waits := by rw [Activity.lockUse, queued]
    rw [hwaits]
    exact .takes (hgranted hwaits)
  | writes writing write =>
    rw [Activity.lockUse, writing]
    exact lockMove_of_write write
  | permitted idle =>
    rw [Progress.lockUse, Activity.lockUse, idle]
    exact .keep
  | denied idle | returns idle =>
    rw [Activity.lockUse, idle]
    exact .keep
  | performs idle _ performed =>
    rw [Activity.lockUse, idle]
    exact lockMove_of_performed (by exact idle) performed

theorem isCoherent_of_write {owner : Owner α} {a' : Activity α} {steps : List (Delivery α)}
    (h : m.write owner a steps = (m₁, .going a')) : a'.IsCoherent := by
  cases steps with
  | nil =>
    cases h
    exact ⟨nofun, nofun⟩
  | cons d steps =>
    cases d with
    | crash => cases h
    | pause ms =>
      cases h
      refine ⟨fun hwait => ?_, nofun⟩
      simp only [pause] at hwait
      split at hwait <;> cases hwait
    | _ =>
      cases h
      exact ⟨nofun, nofun⟩

theorem isCoherent_of_request {owner : Owner α} {a' : Activity α} {e : Emission (Output α)}
    (h : m.requestEmission owner a e = (m₁, .going a')) : a'.IsCoherent := by
  cases owner with
  | hook =>
    cases h
    exact ⟨nofun, nofun⟩
  | worker =>
    cases h
    exact ⟨fun _ => rfl, fun _ => rfl⟩

theorem waitOf_ne_lock (m : Machine α) (action : Action α) : m.waitOf action ≠ .lock := by
  cases action with
  | sleep ms =>
    rw [waitOf, pause]
    split <;> nofun
  | _ => nofun

theorem isCoherent_of_idle {b : Activity α} (hb : b.emitting = none) (hwait : b.wait ≠ .lock) :
    b.IsCoherent := by
  refine ⟨fun heq => absurd heq hwait, fun huse => ?_⟩
  rw [Activity.lockUse, hb] at huse
  cases huse

theorem isCoherent_of_act {owner : Owner α} {a' : Activity α}
    (h : m.act owner a = (m₁, .going a')) : a'.IsCoherent := by
  cases acted h with
  | granted | begins => exact ⟨nofun, nofun⟩
  | writes _ write => exact isCoherent_of_write write
  | permitted idle => exact isCoherent_of_idle idle nofun
  | performs idle _ performed =>
    cases performed with
    | requests _ request => exact isCoherent_of_request request
    | goesOn => exact isCoherent_of_idle idle (m.waitOf_ne_lock _)

/-- Hooks neither take the lock nor wait for it. What keeps their emissions apart from those of
workers is the order of the calls (`not_takes_of_hook`). -/
theorem lock_of_hook {hook : Hook} (h : m.act (.hook hook) a = (m₁, p)) :
    m₁.lock = m.lock ∧ p.lockUse ≠ .waits := by
  cases acted h with
  | begins => exact ⟨rfl, nofun⟩
  | @writes _ _ _ steps _ write =>
    cases steps with
    | nil =>
      cases write
      exact ⟨rfl, nofun⟩
    | cons d steps =>
      cases d <;> cases write
      all_goals exact ⟨rfl, nofun⟩
  | returns => exact ⟨rfl, nofun⟩
  | performs idle _ performed =>
    cases performed with
    | requests _ request =>
      cases request
      exact ⟨rfl, nofun⟩
    | goesOn =>
      refine ⟨rfl, ?_⟩
      rw [Progress.lockUse, Activity.lockUse, idle]
      nofun
    | ends | denied => exact ⟨rfl, nofun⟩

/-! ## One permit -/

/-- The output lock as a gate with a single ticket. Every lemma about gates applies to it, with the
workers as its callers (`Machine.lockAsks`). -/
def lockGate (m : Machine α) : Gate Nat := { capacity := .single, permits := m.lock }

def lockAsks (m : Machine α) (n : Nat) : Option GateRequest := (m.lockUse n).request?

def writers (m : Machine α) : Nat := m.workers.countP (·.phase.lockUse == .holds)

/-- The lock is free, or on its way to a worker that waits, or one worker holds it; and just the
workers that wait are in the line. `balanced` is the invariant of any gate (`Gate.Balanced`), with
the number of `writers` for the tickets held. -/
structure LockOk (m : Machine α) : Prop where
  balanced : m.lockGate.Balanced m.lockAsks m.writers
  claimed : ∀ n, m.lockUse n = .waits → ∃ d ∈ m.lock.demands, d.1 = n
  coherent : ∀ (n : Nat) (w : Worker α) (a : Activity α),
    m.workers[n]? = some w → w.phase = .working a → a.IsCoherent

namespace LockOk

theorem new (setup : Setup α) (scope : Scope) : (Machine.new setup scope).LockOk where
  balanced := Gate.Balanced.new _ _
  claimed := fun n hn => by cases hn
  coherent := fun _ _ _ hw => by cases hw

theorem same (h : m.LockOk) (hlock : m'.lock = m.lock) (hworkers : m'.workers = m.workers) :
    m'.LockOk := by
  have huse : m'.lockUse = m.lockUse := by
    funext n
    rw [lockUse, hworkers, lockUse]
  have hasks : m'.lockAsks = m.lockAsks := by
    funext n
    rw [lockAsks, huse, lockAsks]
  refine ⟨?_, ?_, ?_⟩
  · rw [hasks, writers, hworkers, lockGate, hlock]
    exact h.balanced
  · rw [hlock, huse]
    exact h.claimed
  · rw [hworkers]
    exact h.coherent

theorem more (h : m.LockOk) (hlock : m'.lock = m.lock) {item : WorkItem α}
    (hworkers : m'.workers = m.workers ++ [⟨item, .queued⟩]) : m'.LockOk := by
  have huse : m'.lockUse = m.lockUse := by
    funext n
    rw [lockUse, hworkers, lockUse]
    rcases Nat.lt_trichotomy n m.workers.length with hn | rfl | hn
    · rw [List.getElem?_append_left hn]
    · rw [List.getElem?_concat_length, List.getElem?_eq_none (Nat.le_refl _)]
      rfl
    · rw [List.getElem?_eq_none (Nat.le_of_lt hn), List.getElem?_eq_none]
      rw [List.length_append]
      exact hn
  have hasks : m'.lockAsks = m.lockAsks := by
    funext n
    rw [lockAsks, huse, lockAsks]
  refine ⟨?_, ?_, ?_⟩
  · rw [hasks, writers, hworkers, List.countP_append, lockGate, hlock]
    exact h.balanced
  · rw [hlock, huse]
    exact h.claimed
  · intro n w a hw ha
    rw [hworkers] at hw
    rcases getElem?_concat_cases hw with ⟨-, rfl⟩ | hw
    · cases ha
    · exact h.coherent n w a hw ha

theorem lockUse_of_demand (h : m.LockOk) {d : Nat × Nat} (hd : d ∈ m.lock.demands) :
    m.lockUse d.1 = .waits ∧ d.2 = 1 := by
  obtain ⟨r, hr, hneed⟩ := h.balanced.asked d hd
  rw [lockAsks] at hr
  cases huse : m.lockUse d.1 with
  | waits =>
    rw [huse] at hr
    cases hr
    exact ⟨rfl, hneed⟩
  | away | holds =>
    rw [huse] at hr
    cases hr

theorem not_claims (h : m.LockOk) (hn : m.lockUse n ≠ .waits) : m.lock.claims n = false := by
  rw [Permits.claims_eq_any_demands, List.any_eq_false]
  intro d hd heq
  have hid : d.1 = n := by simpa using heq
  exact hn (hid ▸ (h.lockUse_of_demand hd).1)

theorem demand_of_move {lock lock' : Permits Nat} {use use' : LockUse}
    (hmove : LockMove n lock lock' use use') {k : Nat} (hk : k ≠ n)
    (hclaimed : ∃ d ∈ lock.demands, d.1 = k) : ∃ d ∈ lock'.demands, d.1 = k := by
  obtain ⟨d, hd, rfl⟩ := hclaimed
  refine ⟨d, ?_, rfl⟩
  have hne : (d.1 != n) = true := by simpa using hk
  cases hmove with
  | keep => exact hd
  | asks => exact (lock.demands_join n 1).mem_iff.mpr (List.mem_cons_of_mem _ hd)
  | takes =>
    rw [Permits.demands_collect]
    rw [Permits.demands, List.map_append] at hd
    rcases List.mem_append.mp hd with hd | hd
    · exact List.mem_append_left _ hd
    · exact List.mem_append_right _ (List.mem_filter.mpr ⟨hd, hne⟩)
  | gives => exact (lock.demands_release 1).mem_iff.mpr hd
  | leaves => exact (lock.demands_leave n).mem_iff.mpr (List.mem_filter.mpr ⟨hd, hne⟩)

theorem demand_of_own_move {lock lock' : Permits Nat} {use use' : LockUse}
    (hmove : LockMove n lock lock' use use') (hwaits : use' = .waits)
    (hclaimed : use = .waits → ∃ d ∈ lock.demands, d.1 = n) : ∃ d ∈ lock'.demands, d.1 = n := by
  cases hmove with
  | keep => exact hclaimed hwaits
  | asks => exact ⟨(n, 1), (lock.demands_join n 1).mem_iff.mpr List.mem_cons_self, rfl⟩
  | takes | gives | leaves => cases hwaits

/-- The one permit goes where the `LockMove` of the worker says, and the gate stays balanced. -/
theorem balanced_of_move {lock lock' : Permits Nat} {use use' : LockUse}
    {asks : Nat → Option GateRequest} {held held' : Nat}
    (hb : Gate.Balanced { capacity := .single, permits := lock } asks held)
    (hmove : LockMove n lock lock' use use') (hasks : asks n = use.request?)
    (hnew : use = .away → lock.claims n = false)
    (hheld : held' + (use == .holds).toNat = held + (use' == .holds).toNat) :
    Gate.Balanced { capacity := .single, permits := lock' }
      (Function.update asks n use'.request?) held' := by
  cases hmove with
  | keep =>
    obtain rfl : held' = held := by omega
    rw [← hasks, Function.update_eq_self]
    exact hb
  | asks =>
    obtain rfl : held' = held := hheld
    have hlet : ∀ k r, asks k = some r →
        Function.update asks n LockUse.waits.request? k = some r := by
      intro k r hr
      rw [Function.update_of_ne _, hr]
      rintro rfl
      rw [hasks] at hr
      cases hr
    have hqueued := (hb.mono hlet).queued (Function.update_self n _ asks)
    rw [Gate.queued, hnew rfl] at hqueued
    exact hqueued
  | takes granted =>
    obtain rfl : held' = held + 1 := hheld
    exact hb.collected hasks granted
  | gives =>
    obtain rfl : held = held' + 1 := hheld.symm
    rw [show LockUse.away.request? = asks n from hasks.symm, Function.update_eq_self]
    exact hb.release
  | leaves =>
    obtain rfl : held' = held := hheld
    exact hb.leave n

/-- One worker goes on, and does with the lock what its `LockMove` says. All cases of `LockOk.step`
in which a worker moves come down to this. -/
theorem change (h : m.LockOk) {p : WorkerPhase α} (hw : m.workers[n]? = some w)
    (hworkers : m'.workers = (m.setPhase n p).workers)
    (hmove : LockMove n m.lock m'.lock w.phase.lockUse p.lockUse)
    (hcoherent : ∀ a, p = .working a → a.IsCoherent) : m'.LockOk := by
  have hself : m'.lockUse n = p.lockUse := by
    rw [lockUse, hworkers, setPhase_self hw]
  have hother {k : Nat} (hk : k ≠ n) : m'.lockUse k = m.lockUse k := by
    rw [lockUse, hworkers, setPhase_other hk, lockUse]
  have hasks : m'.lockAsks = Function.update m.lockAsks n p.lockUse.request? := by
    funext k
    by_cases hk : k = n
    · subst hk
      rw [lockAsks, hself, Function.update_self]
    · rw [lockAsks, hother hk, Function.update_of_ne hk, lockAsks]
  have hwriters : m'.writers + (w.phase.lockUse == .holds).toNat =
      m.writers + (p.lockUse == .holds).toNat := by
    rw [writers, hworkers]
    exact countP_modify hw
  have hold := lockUse_of_worker hw
  refine ⟨?_, ?_, ?_⟩
  · rw [hasks]
    refine balanced_of_move h.balanced hmove (by rw [lockAsks, hold]) (fun haway => ?_) hwriters
    exact h.not_claims (by rw [hold, haway]; nofun)
  · intro k hk
    by_cases hkn : k = n
    · subst hkn
      rw [hself] at hk
      exact demand_of_own_move hmove hk fun hwaits => h.claimed k (hold.trans hwaits)
    · exact demand_of_move hmove hkn (h.claimed k (hother hkn ▸ hk))
  · intro k v a hv ha
    rw [hworkers] at hv
    rcases worker_of_setPhase hw hv with ⟨-, rfl⟩ | ⟨-, hv⟩
    · exact hcoherent a ha
    · exact h.coherent k v a hv ha

theorem outside (h : m.LockOk) {p : WorkerPhase α} (hw : m.workers[n]? = some w)
    (hlock : m'.lock = m.lock) (hworkers : m'.workers = (m.setPhase n p).workers)
    (hold : w.phase.lockUse = .away)
    (hnew : ∀ a, p = .working a → a = { script := w.item.script }) : m'.LockOk := by
  have haway : p.lockUse = .away := by
    cases p with
    | working a =>
      cases hnew a rfl
      rfl
    | _ => rfl
  refine h.change hw hworkers ?_ fun a ha => ?_
  · rw [hlock, hold, haway]
    exact .keep
  · cases hnew a ha
    exact ⟨nofun, nofun⟩

theorem goes (h : m.LockOk) (identity : Nat) (hw : m.workers[n]? = some w)
    (hphase : w.phase = .working a) (hawake : m.awake n a.wait = true)
    (hact : m.act (.worker n w.item) a = (m₁, p)) (hlock : m'.lock = m₁.lock)
    (hworkers : m'.workers = (m.setPhase n (p.phase n identity)).workers) : m'.LockOk := by
  have hgranted (hwaits : a.lockUse = .waits) : m.lock.isGranted n = true := by
    rw [(h.coherent n w a hw hphase).mpr hwaits] at hawake
    exact hawake
  refine h.change hw hworkers ?_ fun b hb => ?_
  · rw [hphase, Progress.phase_lockUse, hlock]
    exact lockMove_of_act hact hgranted
  · cases p with
    | going =>
      cases hb
      exact isCoherent_of_act hact
    | «over» outcome => cases outcome <;> cases hb

theorem lose (h : m.LockOk) (hw : m.workers[n]? = some w) (hphase : w.phase = .working a) :
    (m.lose n a).LockOk := by
  have hmove : LockMove n m.lock (m.lose n a).lock a.lockUse .away := by
    unfold Machine.lose Activity.lockUse
    cases a.emitting with
    | none => cases a.wait <;> exact .keep
    | some emitting =>
      cases emitting with
      | queued => cases a.wait <;> exact .leaves
      | writing => cases a.wait <;> exact .gives
  obtain ⟨lock, supply, tally, heq⟩ := m.lose_eq n a
  rw [heq] at hmove ⊢
  refine h.change hw rfl ?_ fun _ ha => nomatch ha
  rw [hphase]
  exact hmove

theorem worker (h : m.LockOk) (hw : m.workers[n]? = some w) (hs : WorkerStep m n w m') :
    m'.LockOk := by
  have haway {q : WorkerPhase α} (phase : w.phase = q) (hq : q.lockUse = .away) :
      w.phase.lockUse = .away := phase ▸ hq
  cases hs with
  | begin phase => exact h.outside hw rfl rfl (haway phase rfl) fun a ha => by cases ha; rfl
  | @goOn a a' m₁ phase awake hact =>
    refine h.goes m.minted hw phase awake hact rfl ?_
    obtain ⟨_, _, _, _, _, _, rfl⟩ := act_eq hact
    rfl
  | @finish a outcome m₁ phase awake hact =>
    obtain ⟨tally, minted, -, heq⟩ := m₁.workEnded_eq n outcome
    rw [heq]
    refine h.goes m₁.minted hw phase awake hact rfl ?_
    obtain ⟨_, _, _, _, _, _, rfl⟩ := act_eq hact
    rfl
  | @offer f e phase =>
    rcases m.offer_cases n f e with ⟨-, heq⟩ | ⟨_, -, heq⟩
    all_goals
      rw [heq]
      exact h.outside hw rfl rfl (haway phase rfl) fun _ ha => nomatch ha
  | count phase | leave phase => exact h.outside hw rfl rfl (haway phase rfl) fun _ ha => nomatch ha
  | @close e phase =>
    obtain ⟨tally, log, heq⟩ := m.close_eq n e
    rw [heq]
    exact h.outside hw rfl rfl (haway phase rfl) fun _ ha => nomatch ha

theorem producer (h : m.LockOk) (hs : ProducerStep m m') : m'.LockOk := by
  cases hs with
  | startOn _ hact | finishOn _ hact =>
    have hlock := (lock_of_hook hact).1
    obtain ⟨_, _, _, _, _, _, rfl⟩ := act_eq hact
    exact h.same hlock rfl
  | @startEnd _ outcome _ _ hact | @finishEnd _ outcome _ _ hact =>
    have hlock := (lock_of_hook hact).1
    obtain ⟨_, _, _, _, _, _, rfl⟩ := act_eq hact
    cases outcome <;> exact h.same hlock rfl
  | ask =>
    unfold askTicket askGate
    split <;> exact h.same rfl rfl
  | check =>
    unfold check
    split <;> exact h.same rfl rfl
  | @hand item =>
    rcases m.hand_cases item with ⟨-, heq⟩ | ⟨-, heq⟩ | ⟨-, -, heq⟩
    all_goals
      rw [heq]
      exact h.more rfl rfl
  | keep | refusalCaptured | refusalLate | refusalCounted => exact h.same rfl rfl
  | @dropPolled n _ _ _ worker _ working =>
    have hdropping : ({ m with producer := .dropping n } : Machine α).LockOk := h.same rfl rfl
    exact hdropping.lose worker working
  | dropQueued _ worker queued =>
    exact h.outside worker rfl rfl (by rw [queued]; rfl) fun _ ha => nomatch ha
  | @answer n _ e _ worker closing =>
    rcases (m.setPhase n (.ended e)).verdictOf_cases n with ⟨-, heq⟩ | ⟨-, heq⟩
    all_goals
      rw [heq]
      exact h.outside worker rfl rfl (by rw [closing]; rfl) fun _ ha => nomatch ha
  | drain =>
    unfold askEverything askGate
    split <;> exact h.same rfl rfl
  | conclude =>
    unfold conclude
    split <;> exact h.same rfl rfl

theorem step {move : Move α} (h : m.LockOk) (ht : Transition m move m') : m'.LockOk := by
  cases ht with
  | violation | start | submit | finish | abandonWait | cancel | world => exact h.same rfl rfl
  | @abandonStart a | @abandonFinish a =>
    obtain ⟨tally, heq⟩ := m.forsakeHook_eq a
    rw [heq]
    exact h.same rfl rfl
  | producer hs => exact h.producer hs
  | worker hw hs => exact h.worker hw hs
  | drop hw _ hs =>
    cases hs with
    | queued phase => exact h.outside hw rfl rfl (by rw [phase]; rfl) fun _ ha => nomatch ha
    | working phase => exact h.lose hw phase

/-- Where a worker waits for the lock, one has been granted it, or holds it. So somebody can go on,
which is what `someone_goes` needs of the lock. -/
theorem exists_turn (h : m.LockOk) (hn : m.lockUse n = .waits) :
    (∃ k, m.lockUse k = .waits ∧ m.lock.isGranted k = true) ∨ ∃ k, m.lockUse k = .holds := by
  by_contra hno
  obtain ⟨hnone, hnobody⟩ := not_or.mp hno
  have hwriters : m.writers = 0 := by
    refine List.countP_eq_zero.mpr fun w hw hholds => hnobody ?_
    obtain ⟨k, hk⟩ := List.getElem?_of_mem hw
    exact ⟨k, (lockUse_of_worker hk).trans (by simpa using hholds)⟩
  have hgranted : m.lock.granted = [] := by
    refine List.eq_nil_iff_forall_not_mem.mpr fun c hc => hnone ⟨c.id, ?_, ?_⟩
    · exact (h.lockUse_of_demand (List.mem_map_of_mem (List.mem_append_right _ hc))).1
    · exact List.any_eq_true.mpr ⟨c, hc, by simp⟩
  have hwaiting : m.lock.waiting ≠ [] := by
    intro hempty
    obtain ⟨d, hd, -⟩ := h.claimed n hn
    rw [Permits.demands, hempty, hgranted] at hd
    cases hd
  -- So the permit is nowhere: it is not free, and nobody has gathered it.
  have hfree := h.balanced.sound.none_free hwaiting
  have hgathered : gatheredBy m.lock.waiting = 0 := by
    refine gatheredBy_eq_zero fun c hc => ?_
    have hlacks := h.balanced.sound.lacking c hc
    have hneed := (h.lockUse_of_demand (List.mem_map_of_mem (List.mem_append_left _ hc))).2
    have hone : c.need = 1 := hneed
    omega
  have hbalance := h.balanced.balance
  rw [hwriters, Permits.total] at hbalance
  have hfree : m.lock.free = 0 := hfree
  simp only [lockGate, hfree, hgathered, hgranted, gatheredBy_nil, Parallelism.count_single]
    at hbalance
  omega

end LockOk

end Machine

end WorkBundle
