import WorkBundle.Proofs.Hooks

/-!
# With a single ticket

An engine with a single ticket has at most one worker in flight, so its items are handled one after
the other, as by the plain loop of `WorkBundle.Proofs.Sequential`. `Machine.Ahead` says what part of
the loop is still ahead, told by the last worker: all others have returned. The ticket of a worker
goes back only after its failure is in the cell, and the producer reads the cell with the ticket in
hand, so the next item is handed over only when the last one has returned.

The proof is a simulation. Every step of the engine carries out the next part of what is ahead
(`Machine.Ahead.step` while items are submitted, `Machine.CarriesOut.andThen` while a hook runs).
-/

set_option autoImplicit false

namespace WorkBundle

variable {α : Type}

namespace WorkerPhase

variable {p : WorkerPhase α}

theorem of_ending (item : WorkItem α) {e : Ending} (h : p.ending? = some e) :
    p.code? item = none ∧ p.pending? = none := by
  cases p with
  | leaving | closing | ended => exact ⟨rfl, rfl⟩
  | _ => cases h

theorem of_pending (item : WorkItem α) {f : Failure} (h : p.pending? = some f) :
    p.code? item = none := by
  cases p with
  | offering | counting => rfl
  | _ => cases h

end WorkerPhase

namespace Machine

/-! ## What is ahead -/

/-- All workers but the one with this number have ended as `returned`. With a single ticket that one
is the last, since the next item waits for its ticket. -/
def ReturnedBut (m : Machine α) (n : Nat) : Prop :=
  ∀ (k : Nat) (w : Worker α), m.workers[k]? = some w → k ≠ n → w.phase.ending? = some .returned

theorem ReturnedBut.set {m m' : Machine α} {n k : Nat} {w : Worker α} {p : WorkerPhase α}
    (h : m.ReturnedBut n) (hw : m.workers[k]? = some w)
    (hworkers : m'.workers = (m.setPhase k p).workers)
    (hending : k = n ∨ p.ending? = w.phase.ending?) : m'.ReturnedBut n := by
  intro j v hv hj
  rw [hworkers] at hv
  rcases worker_of_setPhase hw hv with ⟨rfl, rfl⟩ | ⟨-, hv⟩
  · rcases hending with rfl | hending
    · exact absurd rfl hj
    · exact hending.trans (h j w hw hj)
  · exact h j v hv hj

theorem ReturnedBut.all {m : Machine α} {n : Nat} {w : Worker α} (h : m.ReturnedBut n)
    (hw : m.workers[n]? = some w) (hlast : w.phase.ending? = some .returned) (k : Nat)
    (v : Worker α) (hv : m.workers[k]? = some v) : v.phase.ending? = some .returned := by
  by_cases hk : k = n
  · subst hk
    obtain rfl : w = v := Option.some.inj (hw.symm.trans hv)
    exact hlast
  · exact h k v hv hk

/-- The part of the loop that is ahead of an engine with a single ticket. The loop is `Setup.serve`,
and the cases are the places in it at which an engine can stand. -/
inductive Ahead (m : Machine α) (all : List (WorkItem α)) : Summary α → Prop
  /-- Every worker has returned; the next item is not handed over yet. -/
  | between (empty : m.cell.captured = none) (first : m.minted = 0)
      (returned : ∀ (k : Nat) (w : Worker α),
        m.workers[k]? = some w → w.phase.ending? = some .returned) :
      Ahead m all (m.setup.serve m.workers.length m.scope (all.drop m.workers.length))
  /-- The last worker has this code ahead of it. -/
  | running {n : Nat} {w : Worker α} {a : Activity α} (empty : m.cell.captured = none)
      (first : m.minted = 0) (last : m.workers.length = n + 1) (returned : m.ReturnedBut n)
      (worker : m.workers[n]? = some w) (code : w.code? = some a) :
      Ahead m all
        ((a.effect m.setup.intake (some w.item.toElement) m.scope).andThen m.scope
          (m.setup.served n (all.drop (n + 1))))
  /-- The last worker is about to offer its failure. -/
  | failing {n : Nat} {w : Worker α} {f : Failure} {e : Ending} (empty : m.cell.captured = none)
      (last : m.workers.length = n + 1) (returned : m.ReturnedBut n)
      (worker : m.workers[n]? = some w) (phase : w.phase = .offering f e) :
      Ahead m all { scope := m.scope, processed := n + 1, reply := .answer (.error f.toError) }
  /-- A worker has failed, and every worker has ended. -/
  | failed {f : Failure} (full : m.cell.captured = some f)
      (ended : ∀ (k : Nat) (w : Worker α), m.workers[k]? = some w → w.phase.ending?.isSome)
      (waiting : ∀ item, m.producer ≠ .handing item) :
      Ahead m all
        { scope := m.scope, processed := m.workers.length, reply := .answer (.error f.toError) }

namespace Ahead

variable {m m' : Machine α} {all : List (WorkItem α)} {s : Summary α} {n : Nat} {w : Worker α}
  {p : WorkerPhase α}

theorem same (h : m.Ahead all s) (hsame : m.SameWork m') (workers : m'.workers = m.workers)
    (hhands : ∀ item, m'.producer = .handing item →
      m.producer = .handing item ∨ m.cell.captured = none) : m'.Ahead all s := by
  obtain ⟨setup, scope, -, captured, minted⟩ := hsame
  cases h with
  | between empty first returned =>
    rw [← setup, ← scope, ← workers]
    exact .between (captured.trans empty) (minted.trans first) (workers ▸ returned)
  | running empty first last returned worker code =>
    rw [← setup, ← scope]
    refine .running (captured.trans empty) (minted.trans first) (workers ▸ last) ?_
      (workers ▸ worker) code
    exact fun k v hv => returned k v (workers ▸ hv)
  | failing empty last returned worker phase =>
    rw [← scope]
    refine .failing (captured.trans empty) (workers ▸ last) ?_ (workers ▸ worker) phase
    exact fun k v hv => returned k v (workers ▸ hv)
  | failed full ended waiting =>
    rw [← scope, ← workers]
    refine .failed (captured.trans full) (workers ▸ ended) fun item hp => ?_
    rcases hhands item hp with hp | hempty
    · exact waiting item hp
    · cases full.symm.trans hempty

/-- A worker that begins, or goes on after its end, leaves what is `Ahead`. -/
theorem keep (h : m.Ahead all s) (hw : m.workers[n]? = some w)
    (hsame : m.SameWork m') (hproducer : m'.producer = m.producer)
    (hworkers : m'.workers = (m.setPhase n p).workers) (hending : p.ending? = w.phase.ending?)
    (hcode : p.code? w.item = w.code?) (hpending : w.phase.pending? = none) :
    m'.Ahead all s := by
  obtain ⟨setup, scope, -, captured, minted⟩ := hsame
  have hlength : m'.workers.length = m.workers.length := by rw [hworkers, length_setPhase]
  have hself : m'.workers[n]? = some { w with phase := p } := by rw [hworkers, setPhase_self hw]
  have hother {k : Nat} (hk : k ≠ n) : m'.workers[k]? = m.workers[k]? := by
    rw [hworkers, setPhase_other hk]
  have heach (P : Option Ending → Prop)
      (hall : ∀ (k : Nat) (v : Worker α), m.workers[k]? = some v → P v.phase.ending?) :
      ∀ (k : Nat) (v : Worker α), m'.workers[k]? = some v → P v.phase.ending? := by
    intro k v hv
    by_cases hk : k = n
    · subst hk
      obtain rfl := Option.some.inj (hself.symm.trans hv)
      exact hending ▸ hall k w hw
    · exact hall k v (hother hk ▸ hv)
  cases h with
  | between empty first returned =>
    rw [← hlength, ← setup, ← scope]
    exact .between (captured.trans empty) (minted.trans first) (heach (· = some .returned) returned)
  | @running k v a empty first last returned worker code =>
    have hreturned : m'.ReturnedBut k := returned.set hw hworkers (Or.inr hending)
    rw [← setup, ← scope]
    by_cases hk : k = n
    · subst hk
      obtain rfl : w = v := Option.some.inj (hw.symm.trans worker)
      exact .running (w := { w with phase := p }) (captured.trans empty) (minted.trans first)
        (hlength.trans last) hreturned hself (hcode.trans code)
    · exact .running (captured.trans empty) (minted.trans first) (hlength.trans last) hreturned
        ((hother hk).trans worker) code
  | @failing k v f e empty last returned worker phase =>
    have hk : k ≠ n := by
      rintro rfl
      obtain rfl : w = v := Option.some.inj (hw.symm.trans worker)
      rw [phase] at hpending
      cases hpending
    rw [← scope]
    exact .failing (captured.trans empty) (hlength.trans last)
      (returned.set hw hworkers (Or.inr hending)) ((hother hk).trans worker) phase
  | failed full ended waiting =>
    rw [← hlength, ← scope]
    exact .failed (captured.trans full) (heach (·.isSome = true) ended)
      (hproducer ▸ waiting)

theorem of_code (h : m.Ahead all s) (hw : m.workers[n]? = some w) {a : Activity α}
    (hcode : w.code? = some a) :
    (m.cell.captured = none ∧ m.minted = 0 ∧ m.workers.length = n + 1 ∧ m.ReturnedBut n) ∧
      s = (a.effect m.setup.intake (some w.item.toElement) m.scope).andThen m.scope
        (m.setup.served n (all.drop (n + 1))) := by
  have hnot {e : Ending} (he : w.phase.ending? = some e) : False := by
    rw [Worker.code?, (WorkerPhase.of_ending w.item he).1] at hcode
    cases hcode
  cases h with
  | between _ _ returned => exact (hnot (returned n w hw)).elim
  | @running k v b empty first last returned worker code =>
    by_cases hk : n = k
    · subst hk
      obtain rfl : w = v := Option.some.inj (hw.symm.trans worker)
      obtain rfl : a = b := Option.some.inj (hcode.symm.trans code)
      exact ⟨⟨empty, first, last, returned⟩, rfl⟩
    · exact (hnot (returned n w hw hk)).elim
  | @failing k v f e empty last returned worker phase =>
    by_cases hk : n = k
    · subst hk
      obtain rfl : w = v := Option.some.inj (hw.symm.trans worker)
      rw [Worker.code?, phase] at hcode
      cases hcode
    · exact (hnot (returned n w hw hk)).elim
  | failed _ ended =>
    obtain ⟨e, he⟩ := Option.isSome_iff_exists.mp (ended n w hw)
    exact (hnot he).elim

theorem of_pending (h : m.Ahead all s) (hw : m.workers[n]? = some w) {f : Failure}
    (hpending : w.phase.pending? = some f) :
    (m.cell.captured = none ∧ m.workers.length = n + 1 ∧ m.ReturnedBut n ∧
        ∃ e, w.phase = .offering f e) ∧
      s = { scope := m.scope, processed := n + 1, reply := .answer (.error f.toError) } := by
  have hnot {e : Ending} (he : w.phase.ending? = some e) : False := by
    rw [(WorkerPhase.of_ending w.item he).2] at hpending
    cases hpending
  cases h with
  | between _ _ returned => exact (hnot (returned n w hw)).elim
  | @running k v b empty first last returned worker code =>
    by_cases hk : n = k
    · subst hk
      obtain rfl : w = v := Option.some.inj (hw.symm.trans worker)
      rw [Worker.code?, WorkerPhase.of_pending w.item hpending] at code
      cases code
    · exact (hnot (returned n w hw hk)).elim
  | @failing k v g e empty last returned worker phase =>
    by_cases hk : n = k
    · subst hk
      obtain rfl : w = v := Option.some.inj (hw.symm.trans worker)
      rw [phase] at hpending
      cases hpending
      exact ⟨⟨empty, last, returned, e, phase⟩, rfl⟩
    · exact (hnot (returned n w hw hk)).elim
  | failed _ ended =>
    obtain ⟨e, he⟩ := Option.isSome_iff_exists.mp (ended n w hw)
    exact (hnot he).elim

/-- When nothing is in flight, either all have returned or a failure is captured. In between a
failure is `pending?`, and its worker still has the ticket. -/
theorem of_nothing_inFlight (h : m.Ahead all s) (hempty : inFlight m.workers = 0) :
    m.cell.captured = none ∧
        s = m.setup.serve m.workers.length m.scope (all.drop m.workers.length) ∨
      ∃ f, m.cell.captured = some f ∧
        s = { scope := m.scope, processed := m.workers.length,
              reply := .answer (.error f.toError) } := by
  cases h with
  | between empty => exact Or.inl ⟨empty, rfl⟩
  | @running k v a _ _ _ _ worker code =>
    refine absurd hempty (inFlight_ne_zero worker ?_)
    rw [Worker.code?] at code
    cases hv : v.phase <;> first | rfl | (rw [hv] at code; cases code)
  | failing _ _ _ worker phase =>
    exact absurd hempty (inFlight_ne_zero worker (by rw [phase]; rfl))
  | failed full => exact Or.inr ⟨_, full, rfl⟩

/-! ## One step -/

theorem runCode (h : m.Ahead all s) (hw : m.workers[n]? = some w) {a : Activity α}
    {p : Progress α} {m₁ : Machine α} (hcode : w.code? = some a)
    (hcarries : CarriesOut m m₁ (.worker n w.item) a p) (hsetup : m'.setup = m.setup)
    (hscope : m'.scope = m₁.scope) (harrivals : m'.arrivals = m₁.arrivals)
    (hcaptured : m'.cell.captured = m.cell.captured)
    (hminted : (∀ outcome, p = .over outcome → outcome = .returned) → m'.minted = m.minted)
    (hworkers : m'.workers = (m.setPhase n (p.phase n m.minted)).workers) :
    Leads m m' (m'.Ahead all) s := by
  obtain ⟨⟨hempty, hfirst, hlast, hreturned⟩, rfl⟩ := h.of_code hw hcode
  obtain ⟨out, hout, hrest⟩ := hcarries.andThen (m.setup.served n (all.drop (n + 1)))
  refine ⟨out, _, by rw [← hout, output, output, harrivals], ?_, hrest⟩
  have hempty' := hcaptured.trans hempty
  have hlast' : m'.workers.length = n + 1 := by rw [hworkers, length_setPhase, hlast]
  have hself : m'.workers[n]? = some { w with phase := p.phase n m.minted } := by
    rw [hworkers, setPhase_self hw]
  -- Whatever phase the worker goes to, the others have returned.
  have hreturned' : m'.ReturnedBut n := hreturned.set hw hworkers (Or.inl rfl)
  rw [← hsetup, ← hscope]
  cases p with
  | going a' =>
    have hfirst' : m'.minted = 0 := (hminted fun _ ho => by cases ho).trans hfirst
    exact .running (w := { w with phase := .working a' }) hempty' hfirst' hlast' hreturned' hself
      rfl
  | «over» outcome =>
    rw [Progress.effect, Effect.andThen_over]
    cases outcome with
    | returned =>
      have hfirst' : m'.minted = 0 := (hminted fun _ ho => (Progress.over.inj ho).symm).trans hfirst
      rw [Setup.served, orStop, Outcome.failure?, ← hlast']
      exact .between hempty' hfirst' (hreturned'.all hself rfl)
    -- The first failure that is made.
    | failed | panicked =>
      rw [hfirst] at hself
      exact .failing hempty' hlast' hreturned' hself rfl

theorem offer (h : m.Ahead all s) (hw : m.workers[n]? = some w) {f : Failure} {e : Ending}
    (hphase : w.phase = .offering f e) (hwaiting : ∀ item, m.producer ≠ .handing item) :
    Leads m (m.offer n f e) ((m.offer n f e).Ahead all) s := by
  obtain ⟨⟨hempty, hlast, hreturned, -⟩, rfl⟩ := h.of_pending hw (by rw [hphase]; rfl)
  rcases m.offer_cases n f e with ⟨-, heq⟩ | ⟨g, hfull, -⟩
  · rw [heq]
    refine leads_nothing rfl ?_
    have hlast' : (m.setPhase n (.leaving e)).workers.length = n + 1 := by
      rw [length_setPhase, hlast]
    rw [← hlast']
    refine .failed rfl (fun k v hv => ?_) hwaiting
    rcases worker_of_setPhase hw hv with ⟨-, rfl⟩ | ⟨hne, hv⟩
    · rfl
    · rw [hreturned k v hv hne]
      rfl
  · cases hempty.symm.trans hfull

theorem hand (h : m.Ahead all s) {item : WorkItem α} (hp : m.producer = .handing item)
    (halone : inFlight m.workers = 0) (hnext : all[m.workers.length]? = some item) :
    Leads m (m.hand item) ((m.hand item).Ahead all) s := by
  have hheld {k : Nat} {v : Worker α} (hv : m.workers[k]? = some v)
      (hholds : v.phase.holdsTicket = true) : False :=
    inFlight_ne_zero hv hholds halone
  cases h with
  | between empty first returned =>
    obtain ⟨hlt, hget⟩ := List.getElem?_eq_some_iff.mp hnext
    rw [List.drop_eq_getElem_cons hlt, hget, Setup.serve_cons]
    have hself : (m.workers ++ [⟨item, .queued⟩])[m.workers.length]? =
        some (⟨item, .queued⟩ : Worker α) := List.getElem?_concat_length
    have hreturned : ∀ (k : Nat) (v : Worker α), (m.workers ++ [⟨item, .queued⟩])[k]? = some v →
        k ≠ m.workers.length → v.phase.ending? = some .returned := by
      intro k v hv hne
      rcases getElem?_concat_cases hv with ⟨hk, -⟩ | hv
      · exact absurd hk hne
      · exact returned k v hv
    have hsame : m.SameWork (m.hand item) ∧
        (m.hand item).workers = m.workers ++ [⟨item, .queued⟩] := by
      rcases m.hand_cases item with ⟨-, heq⟩ | ⟨-, heq⟩ | ⟨-, -, heq⟩
      all_goals
        rw [heq]
        exact ⟨⟨rfl, rfl, rfl, rfl, rfl⟩, rfl⟩
    obtain ⟨⟨hsetup, hscope, harrivals, hcaptured, hminted⟩, hworkers⟩ := hsame
    refine leads_nothing harrivals ?_
    rw [← hsetup, ← hscope]
    rw [← hworkers] at hself hreturned
    exact .running (hcaptured.trans empty) (hminted.trans first) (m.length_hand item) hreturned
      hself rfl
  | @running k v a _ _ _ _ worker code =>
    refine (hheld worker ?_).elim
    rw [Worker.code?] at code
    cases hv : v.phase <;> first | rfl | (rw [hv] at code; cases code)
  | failing _ _ _ worker phase => exact (hheld worker (by rw [phase]; rfl)).elim
  | failed _ _ waiting => exact absurd hp (waiting item)

theorem worker (h : m.Ahead all s) (hw : m.workers[n]? = some w) (hstep : WorkerStep m n w m')
    (hcarries : ∀ a m₁ p, w.phase = .working a → m.act (.worker n w.item) a = (m₁, p) →
      CarriesOut m m₁ (.worker n w.item) a p)
    (hwaiting : inFlight m.workers ≠ 0 → ∀ item, m.producer ≠ .handing item) :
    Leads m m' (m'.Ahead all) s := by
  cases hstep with
  | begin phase =>
    exact leads_nothing rfl (h.keep hw ⟨rfl, rfl, rfl, rfl, rfl⟩ rfl rfl (by rw [phase]; rfl)
      (by rw [Worker.code?, phase]; rfl) (by rw [phase]; rfl))
  | @goOn a a' m₁ phase _ hact =>
    have hdone := hcarries a m₁ _ phase hact
    have hcode : w.code? = some a := by rw [Worker.code?, phase]; rfl
    obtain ⟨_, _, _, _, _, _, rfl⟩ := act_eq hact
    exact h.runCode hw hcode hdone rfl rfl rfl rfl (fun _ => rfl) rfl
  | @finish a outcome m₁ phase _ hact =>
    have hdone := hcarries a m₁ _ phase hact
    have hcode : w.code? = some a := by rw [Worker.code?, phase]; rfl
    obtain ⟨tally, minted, hminted, heq⟩ := m₁.workEnded_eq n outcome
    rw [heq]
    obtain ⟨_, _, _, _, _, _, rfl⟩ := act_eq hact
    exact h.runCode hw hcode hdone rfl rfl rfl rfl (fun hr => hminted (hr outcome rfl)) rfl
  | offer phase => exact h.offer hw phase (hwaiting (inFlight_ne_zero hw (by rw [phase]; rfl)))
  | count phase =>
    obtain ⟨⟨-, -, -, e, hoffering⟩, -⟩ := h.of_pending hw (by rw [phase]; rfl)
    cases phase.symm.trans hoffering
  | leave phase =>
    exact leads_nothing rfl (h.keep hw ⟨rfl, rfl, rfl, rfl, rfl⟩ rfl rfl (by rw [phase]; rfl)
      (by rw [Worker.code?, phase]; rfl) (by rw [phase]; rfl))
  | @close e phase =>
    obtain ⟨tally, log, heq⟩ := m.close_eq n e
    rw [heq]
    exact leads_nothing rfl (h.keep hw ⟨rfl, rfl, rfl, rfl, rfl⟩ rfl rfl (by rw [phase]; rfl)
      (by rw [Worker.code?, phase]; rfl) (by rw [phase]; rfl))

/-- While no hook runs, a step of an engine with a single ticket carries out the first part of what
is `Ahead`. -/
theorem step (h : m.Ahead all s) {move : Move α} (ht : Transition m move m')
    (hinner : move.isInner = true) (hkept : ∀ n, move ≠ .drop n) (hj : m.Judged m.producer)
    (hruns : m.RunsAll) (hhook : m.producer.hook? = none) {opened : Bool}
    (hsupplied : m.Supplied opened)
    (halone : ∀ item, m.producer = .handing item → inFlight m.workers = 0)
    (hnext : ∀ item, m.producer = .handing item → all[m.workers.length]? = some item) :
    Leads m m' (m'.Ahead all) s := by
  cases ht with
  | violation | start | submit | finish | abandonStart | abandonWait | abandonFinish | cancel =>
    cases hinner
  | producer hstep =>
    rcases sameWork_or_hand hstep hj hruns hhook with ⟨hsame, hw, hhands⟩ | ⟨item, hp, rfl⟩
    · exact leads_nothing hsame.arrivals (h.same hsame hw fun item hp => Or.inr (hhands item hp))
    · exact h.hand hp (halone item hp) (hnext item hp)
  | worker hw hstep =>
    refine h.worker hw hstep (fun a m₁ p hp hact => hsupplied.carriesOut hw hp hact) ?_
    exact fun hflight item hp => hflight (halone item hp)
  | @drop n => exact absurd rfl (hkept n)
  | world => exact leads_nothing rfl (h.same ⟨rfl, rfl, rfl, rfl, rfl⟩ rfl fun _ hp => Or.inl hp)

end Ahead

end Machine

end WorkBundle
