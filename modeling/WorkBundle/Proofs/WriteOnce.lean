import WorkBundle.FailureCell
import WorkBundle.Proofs.Runs
import WorkBundle.Proofs.Workers

/-!
# The cell is written once

Any number of writers and readers share a failure cell. To offer a failure takes a writer two steps:
the cell is compared with empty and set, and if it was not empty, the offer is counted as a late
one. Anything can happen in between. `CellUse` is a cell with the offers that were made to it, in
the order in which the cell met them, and with what its readers were told.

The first offer that the cell meets wins, all others lose (`FirstWins`), whoever makes them and
whatever they offer; from then on every reader is told of that failure. An offer that loses is
counted once, by its own second step.
-/

set_option autoImplicit false

namespace WorkBundle

/-! ## A cell that is shared -/

/-- How an offer stands, once the cell has met it: it has `won`, or it is `losing` until its writer
has counted it. The write that fails and the count are two steps, and others may come in between. -/
inductive OfferStage where
  | won
  | losing
  | lost
  deriving DecidableEq, Repr

structure Offer where
  failure : Failure
  stage : OfferStage
  deriving DecidableEq, Repr

/-- What the writer is told, once its offer is over; one that is `losing` has not been told yet. -/
def Offer.result? (o : Offer) : Option Bool :=
  match o.stage with
  | .won => some true
  | .losing => none
  | .lost => some false

theorem Offer.result?_eq_true (o : Offer) : o.result? = some true ↔ o.stage = .won := by
  cases hs : o.stage <;> simp [Offer.result?, hs]

inductive CellQuestion where
  | captured
  | isSet
  | dropped
  deriving DecidableEq, Repr

inductive CellAnswer where
  | captured (f : Option Failure)
  | isSet (b : Bool)
  | dropped (n : Nat)
  deriving DecidableEq, Repr

def FailureCell.answer (c : FailureCell) : CellQuestion → CellAnswer
  | .captured => .captured c.captured
  | .isSet => .isSet c.isSet
  | .dropped => .dropped c.dropped

/-- What somebody does to the cell in one step. An interleaving of any number of writers (`offer`,
`count`) and readers (`ask`) is a list of these. -/
inductive CellMove where
  /-- A writer offers a failure: the cell is set if it is empty. -/
  | offer (f : Failure)
  /-- The offer of this number has lost, and its writer counts it. -/
  | count (number : Nat)
  | ask (q : CellQuestion)
  deriving DecidableEq, Repr

/-- An answer of the cell, with the offers that it had met by then, as they stood. The offers are no
part of the answer: they are there to judge it by `Truthful`. -/
structure CellReading where
  offers : List Offer
  answer : CellAnswer
  deriving DecidableEq, Repr

/-- A cell in use. Besides the `FailureCell` of the engine it keeps a history, which the cell itself
does not have. -/
structure CellUse where
  cell : FailureCell := {}
  /-- In the order in which the cell met them; an offer has its place as its number. -/
  offers : List Offer := []
  readings : List CellReading := []
  deriving DecidableEq, Repr

namespace CellUse

def counted (offers : List Offer) (number : Nat) : List Offer :=
  offers.modify number fun o => { o with stage := .lost }

/-- What a step does, if it can happen: only an offer that is `losing` is counted, and only once. -/
def step (u : CellUse) : CellMove → Option CellUse
  | .offer f =>
    let (won, cell) := u.cell.offer f
    some { u with cell, offers := u.offers ++ [⟨f, if won then .won else .losing⟩] }
  | .count number =>
    match u.offers[number]? with
    | some ⟨_, .losing⟩ =>
      some { u with cell := u.cell.countLoser, offers := counted u.offers number }
    | _ => none
  | .ask q => some { u with readings := u.readings ++ [⟨u.offers, u.cell.answer q⟩] }

def run (u : CellUse) (moves : List CellMove) : Option CellUse := moves.foldlM step u

def offeredIn (moves : List CellMove) : List Failure :=
  moves.filterMap fun
    | .offer f => some f
    | _ => none

def results (u : CellUse) : List Bool := u.offers.filterMap Offer.result?

def lostOffers (offers : List Offer) : Nat := offers.countP (·.stage == .lost)

inductive Stepped (u : CellUse) : CellMove → CellUse → Prop
  | won {f : Failure} (empty : u.cell.captured = none) :
      Stepped u (.offer f)
        { u with
          cell := { u.cell with captured := some f }
          offers := u.offers ++ [⟨f, .won⟩] }
  | late {f g : Failure} (full : u.cell.captured = some g) :
      Stepped u (.offer f) { u with offers := u.offers ++ [⟨f, .losing⟩] }
  | counted {number : Nat} {f : Failure} (losing : u.offers[number]? = some ⟨f, .losing⟩) :
      Stepped u (.count number)
        { u with cell := u.cell.countLoser, offers := counted u.offers number }
  | told (q : CellQuestion) :
      Stepped u (.ask q)
        { u with readings := u.readings ++ [⟨u.offers, u.cell.answer q⟩] }

variable {u u' : CellUse} {moves : List CellMove} {move : CellMove}

theorem stepped_of_step (h : u.step move = some u') : Stepped u move u' := by
  cases move with
  | offer f =>
    simp only [step, FailureCell.offer] at h
    cases hc : u.cell.captured with
    | none =>
      simp only [hc, if_true, Option.some.injEq] at h
      subst h
      apply Stepped.won hc
    | some g =>
      simp only [hc, Bool.false_eq_true, if_false, Option.some.injEq] at h
      subst h
      apply Stepped.late hc
  | count number =>
    simp only [step] at h
    split at h
    · rename_i f hlosing
      cases h
      apply Stepped.counted hlosing
    · cases h
  | ask q =>
    cases h
    apply Stepped.told

@[simp] theorem offeredIn_nil : offeredIn [] = [] := rfl

theorem offeredIn_append (moves later : List CellMove) :
    offeredIn (moves ++ later) = offeredIn moves ++ offeredIn later :=
  List.filterMap_append

@[simp] theorem offeredIn_offer (f : Failure) (moves : List CellMove) :
    offeredIn (.offer f :: moves) = f :: offeredIn moves := rfl

@[simp] theorem offeredIn_count (number : Nat) (moves : List CellMove) :
    offeredIn (.count number :: moves) = offeredIn moves := rfl

@[simp] theorem offeredIn_ask (q : CellQuestion) (moves : List CellMove) :
    offeredIn (.ask q :: moves) = offeredIn moves := rfl

/-! ## The first offer wins -/

/-- The cell holds what was offered first, and of all offers only the first has `won`. It has two
cases because an empty cell has met no offers at all. -/
inductive FirstWins : Option Failure → List Offer → Prop
  | nobody : FirstWins none []
  | first {f : Failure} {others : List Offer} (late : ∀ o ∈ others, o.stage ≠ .won) :
      FirstWins (some f) (⟨f, .won⟩ :: others)

namespace FirstWins

variable {captured : Option Failure} {offers : List Offer}

theorem captured_eq (h : FirstWins captured offers) :
    captured = offers.head?.map (·.failure) := by
  cases h <;> simp

theorem offers_nil (h : FirstWins none offers) : offers = [] := by
  cases h
  rfl

theorem late {f g : Failure} (h : FirstWins (some g) offers) :
    FirstWins (some g) (offers ++ [⟨f, .losing⟩]) := by
  cases h with
  | first late =>
    apply FirstWins.first
    intro o ho
    rcases List.mem_append.mp ho with ho | ho
    · exact late o ho
    · simp [List.mem_singleton.mp ho]

theorem counted {number : Nat} {g : Failure} (h : FirstWins captured offers)
    (losing : offers[number]? = some ⟨g, .losing⟩) :
    FirstWins captured (counted offers number) := by
  cases h with
  | nobody => simp at losing
  | @first f others late =>
    cases number with
    | zero => simp at losing
    | succ number =>
      simp only [CellUse.counted, List.modify_succ_cons]
      apply FirstWins.first
      intro o ho
      obtain ⟨k, hk⟩ := List.mem_iff_getElem?.mp ho
      rw [List.getElem?_modify] at hk
      obtain ⟨b, hb, rfl⟩ := Option.map_eq_some_iff.mp hk
      by_cases hn : number = k
      · simp [hn]
      · simpa [hn] using late b (List.mem_of_getElem? hb)

/-- The winner is told apart from all others by its place; two offers of one failure differ in
nothing else. -/
theorem won_iff (h : FirstWins captured offers) {k : Nat} {o : Offer} (ho : offers[k]? = some o) :
    o.stage = .won ↔ k = 0 := by
  cases h with
  | nobody => simp at ho
  | first late =>
    cases k with
    | zero =>
      simp only [List.getElem?_cons_zero, Option.some.injEq] at ho
      simp [← ho]
    | succ k =>
      have hmem := List.mem_of_getElem? (List.getElem?_cons_succ ▸ ho)
      simpa using late o hmem

theorem count_true (h : FirstWins captured offers) (hne : offers ≠ []) :
    (offers.filterMap Offer.result?).count true = 1 := by
  cases h with
  | nobody => exact absurd rfl hne
  | @first f others late =>
    have hothers : (others.filterMap Offer.result?).count true = 0 := by
      apply List.count_eq_zero.mpr
      intro hmem
      obtain ⟨o, ho, hr⟩ := List.mem_filterMap.mp hmem
      have hstage := late o ho
      cases hs : o.stage <;> simp [Offer.result?, hs] at hr hstage
    have hfirst : Offer.result? ⟨f, .won⟩ = some true := rfl
    rw [List.filterMap_cons_some hfirst, List.count_cons_self, hothers]

end FirstWins

/-! ## What is counted -/

theorem lostOffers_concat (offers : List Offer) (f : Failure) {stage : OfferStage}
    (h : stage ≠ .lost) : lostOffers (offers ++ [⟨f, stage⟩]) = lostOffers offers := by
  simp [lostOffers, List.countP_append, h]

theorem lostOffers_counted {offers : List Offer} {number : Nat} {f : Failure}
    (losing : offers[number]? = some ⟨f, .losing⟩) :
    lostOffers (counted offers number) = lostOffers offers + 1 := by
  have h := countP_modify (p := fun o : Offer => o.stage == .lost)
    (f := fun o => { o with stage := .lost }) losing
  have hlosing : (OfferStage.losing == OfferStage.lost).toNat = 0 := by decide
  simpa [lostOffers, counted, hlosing] using h

theorem count_false (offers : List Offer) :
    (offers.filterMap Offer.result?).count false = lostOffers offers := by
  induction offers with
  | nil => simp [lostOffers]
  | cons o offers ih =>
    rw [lostOffers] at ih ⊢
    cases hs : o.stage <;> simp [Offer.result?, hs, ih]

theorem failures_counted (offers : List Offer) (number : Nat) :
    (counted offers number).map (·.failure) = offers.map (·.failure) := by
  apply List.ext_getElem?
  intro k
  simp only [counted, List.getElem?_map, List.getElem?_modify]
  cases offers[k]? with
  | none => simp
  | some o => by_cases hn : number = k <;> simp [hn]

theorem failures_run (hrun : u.run moves = some u') :
    u'.offers.map (·.failure) = u.offers.map (·.failure) ++ offeredIn moves := by
  refine foldlM_induction (Q := fun moves u' => u'.offers.map (·.failure) =
    u.offers.map (·.failure) ++ offeredIn moves) (by simp) ?_ hrun
  intro moves u₁ u₂ move _ ih hstep
  rw [offeredIn_append, ← List.append_assoc, ← ih]
  cases stepped_of_step hstep with
  | won | late => simp
  | counted => rw [failures_counted, offeredIn_count, offeredIn_nil, List.append_nil]
  | told => simp

/-! ## What readers are told -/

/-- The answer is right where these offers were met, as they stood; `dropped` counts only those
whose writers were done. -/
def Truthful (offers : List Offer) : CellAnswer → Prop
  | .captured f => f = offers.head?.map (·.failure)
  | .isSet b => b = !offers.isEmpty
  | .dropped n => n = lostOffers offers

/-- Cell, offers and readings agree: `FirstWins` holds, and every reading was and still is
`Truthful`. -/
structure Agrees (u : CellUse) : Prop where
  first : FirstWins u.cell.captured u.offers
  dropped : u.cell.dropped = lostOffers u.offers
  truthful : ∀ r ∈ u.readings, Truthful r.offers r.answer
  /-- What was offered before a reader asked was offered first. -/
  earlier : ∀ r ∈ u.readings, r.offers.map (·.failure) <+: u.offers.map (·.failure)

namespace Agrees

theorem new : Agrees {} where
  first := .nobody
  dropped := rfl
  truthful := by simp
  earlier := by simp

theorem answer (h : u.Agrees) (q : CellQuestion) : Truthful u.offers (u.cell.answer q) := by
  have hcaptured := h.first.captured_eq
  cases q with
  | captured => exact hcaptured
  | isSet =>
    simp only [FailureCell.answer, FailureCell.isSet, Truthful, hcaptured]
    cases u.offers <;> simp
  | dropped => exact h.dropped

theorem earlier_concat (h : u.Agrees) (o : Offer) :
    ∀ r ∈ u.readings, r.offers.map (·.failure) <+: (u.offers ++ [o]).map (·.failure) := by
  intro r hr
  rw [List.map_append]
  exact (h.earlier r hr).trans (List.prefix_append _ _)

theorem stepped (h : u.Agrees) (hs : Stepped u move u') : u'.Agrees := by
  have hfirst := h.first
  have hdropped := h.dropped
  cases hs with
  | @won f empty =>
    rw [empty] at hfirst
    refine ⟨?_, ?_, h.truthful, h.earlier_concat _⟩
    · rw [hfirst.offers_nil]
      apply FirstWins.first
      simp
    · rw [lostOffers_concat _ _ (by simp)]
      exact hdropped
  | @late f g full =>
    rw [full] at hfirst
    refine ⟨?_, ?_, h.truthful, h.earlier_concat _⟩
    · simp only [full]
      exact hfirst.late
    · rw [lostOffers_concat _ _ (by simp)]
      exact hdropped
  | @counted number f losing =>
    refine ⟨hfirst.counted losing, ?_, h.truthful, ?_⟩
    · simp only [lostOffers_counted losing, FailureCell.countLoser, hdropped]
    · intro r hr
      rw [failures_counted]
      exact h.earlier r hr
  | told q =>
    refine ⟨hfirst, hdropped, ?_, ?_⟩
    · intro r hr
      rcases List.mem_append.mp hr with hr | hr
      · exact h.truthful r hr
      · rw [List.mem_singleton.mp hr]
        exact h.answer q
    · intro r hr
      rcases List.mem_append.mp hr with hr | hr
      · exact h.earlier r hr
      · obtain rfl := List.mem_singleton.mp hr
        exact List.prefix_refl _

theorem run (h : u.Agrees) (hrun : u.run moves = some u') : u'.Agrees :=
  foldlM_invariant (A := fun _ => True) (fun h _ hs => h.stepped (stepped_of_step hs)) h
    (fun _ _ => trivial) hrun

theorem captured_eq (h : u.Agrees) (hrun : ({} : CellUse).run moves = some u) :
    u.cell.captured = (offeredIn moves).head? := by
  have hoffers : u.offers.map (·.failure) = offeredIn moves := failures_run hrun
  rw [h.first.captured_eq, ← hoffers, List.head?_map]

theorem told_before (h : u.Agrees) {r : CellReading} (hr : r ∈ u.readings) (hnil : r.offers = []) :
    (∀ f, r.answer = .captured f → f = none) ∧ ∀ b, r.answer = .isSet b → b = false := by
  have htrue := h.truthful r hr
  constructor
  · intro f hf
    simpa [hf, Truthful, hnil] using htrue
  · intro b hb
    simpa [hb, Truthful, hnil] using htrue

/-- Who asks after the first offer is told of it (`captured`, `isSet`), whatever was offered since.
-/
theorem told_after (h : u.Agrees) {r : CellReading} (hr : r ∈ u.readings) (hne : r.offers ≠ []) :
    ∃ o, u.offers[0]? = some o ∧ (∀ f, r.answer = .captured f → f = some o.failure) ∧
      ∀ b, r.answer = .isSet b → b = true := by
  have htrue := h.truthful r hr
  have hearlier := h.earlier r hr
  obtain ⟨b, bs, hb⟩ := List.exists_cons_of_ne_nil hne
  -- What the cell had met first by then is still what it has met first.
  cases hoffers : u.offers with
  | nil => simp [hb, hoffers] at hearlier
  | cons o os =>
    simp only [hb, hoffers, List.map_cons, List.cons_prefix_cons] at hearlier
    refine ⟨o, rfl, ?_, ?_⟩
    · intro f hf
      simpa [hf, Truthful, hb, hearlier.1] using htrue
    · intro c hc
      simpa [hc, Truthful, hb] using htrue

end Agrees

/-! ## The cell over time -/

theorem run_append (u : CellUse) (moves later : List CellMove) :
    u.run (moves ++ later) = (u.run moves).bind (·.run later) :=
  List.foldlM_append

theorem captured_stepped {f : Failure} (hs : Stepped u move u') (hf : u.cell.captured = some f) :
    u'.cell.captured = some f := by
  cases hs with
  | won empty =>
    rw [empty] at hf
    cases hf
  | late | counted | told => exact hf

theorem captured_run {f : Failure} (hrun : u.run moves = some u')
    (hf : u.cell.captured = some f) : u'.cell.captured = some f :=
  foldlM_invariant (I := fun u => u.cell.captured = some f) (A := fun _ => True)
    (fun hf _ hs => captured_stepped (stepped_of_step hs) hf) hf (fun _ _ => trivial) hrun

/-- The moves of a writer whom nobody disturbs between `offer` and `count`. -/
def undisturbed (u : CellUse) (f : Failure) : List CellMove :=
  if u.cell.isSet then [.offer f, .count u.offers.length] else [.offer f]

/-- Undisturbed, the two steps are `FailureCell.trySet`. The steps of this module are the parts of
that operation, and not another one. -/
theorem run_undisturbed (u : CellUse) (f : Failure) :
    u.run (u.undisturbed f) = some { u with
      cell := (u.cell.trySet f).2
      offers := u.offers ++ [⟨f, if (u.cell.trySet f).1 then .won else .lost⟩] } := by
  have hlast : counted (u.offers ++ [⟨f, .losing⟩]) u.offers.length =
      u.offers ++ [⟨f, .lost⟩] := by
    rw [counted, List.modify_eq_take_drop]
    simp
  cases hc : u.cell.captured with
  | none =>
    simp [undisturbed, run, step, FailureCell.isSet, FailureCell.trySet, FailureCell.offer, hc]
  | some g =>
    simp [undisturbed, run, step, FailureCell.isSet, FailureCell.trySet, FailureCell.offer, hc,
      hlast]

/-- **The first offer wins.** Any number of writers and readers use a cell that was empty, in any
interleaving of their steps; it meets the offers in the order in which they are made. Of the writers
whose offers are over, if there are any, exactly one was told that it has won: the one whose offer
the cell met first. Readers who asked before that were told that there is nothing; all later ones
were told of that very failure. From the first offer on the cell holds it, in every state; whatever
is offered next loses, also that failure itself. And the cell has counted as many offers as were
told that they have lost. A writer whom nobody disturbs makes its two steps just as
`FailureCell.trySet` does. -/
theorem first_offer_wins (hrun : ({} : CellUse).run moves = some u) :
    u.offers.map (·.failure) = offeredIn moves ∧
    (u.results ≠ [] → u.results.count true = 1) ∧
    (∀ k o, u.offers[k]? = some o → (o.result? = some true ↔ k = 0)) ∧
    (∀ r ∈ u.readings, r.offers = [] →
      (∀ f, r.answer = .captured f → f = none) ∧ ∀ b, r.answer = .isSet b → b = false) ∧
    (∀ r ∈ u.readings, r.offers ≠ [] → ∃ o, u.offers[0]? = some o ∧
      (∀ f, r.answer = .captured f → ∃ g, f = some g ∧ g = o.failure ∧ g.same o.failure = true) ∧
        ∀ b, r.answer = .isSet b → b = true) ∧
    (∀ before after u₁, moves = before ++ after → ({} : CellUse).run before = some u₁ →
      u₁.cell.captured = (offeredIn before).head? ∧
        u₁.cell.isSet = !(offeredIn before).isEmpty ∧
        (offeredIn before ≠ [] → u.cell.captured = u₁.cell.captured)) ∧
    (∀ f, (u.cell.trySet f).1 = u.offers.isEmpty ∧
      ∃ u', u.run (u.undisturbed f) = some u' ∧ u'.cell = (u.cell.trySet f).2 ∧
        u'.results = u.results ++ [(u.cell.trySet f).1]) ∧
    u.cell.dropped = u.results.count false := by
  have h : u.Agrees := Agrees.new.run hrun
  have hfirst := h.first
  refine ⟨failures_run hrun, ?_, ?_, ?_, ?_, ?_, ?_, ?_⟩
  · intro hne
    apply hfirst.count_true
    rintro hnil
    exact hne (by simp [results, hnil])
  · intro k o ho
    rw [o.result?_eq_true, hfirst.won_iff ho]
  · intro r hr hnil
    exact h.told_before hr hnil
  · intro r hr hne
    obtain ⟨o, ho, hcaptured, hset⟩ := h.told_after hr hne
    refine ⟨o, ho, ?_, hset⟩
    intro f hf
    exact ⟨o.failure, hcaptured f hf, rfl, by simp [Failure.same]⟩
  · rintro before after u₁ rfl hbefore
    have hcaptured : u₁.cell.captured = (offeredIn before).head? :=
      (Agrees.new.run hbefore).captured_eq hbefore
    refine ⟨hcaptured, ?_, ?_⟩
    · rw [FailureCell.isSet, hcaptured]
      cases offeredIn before <;> rfl
    · intro hne
      obtain ⟨f, fs, hf⟩ := List.exists_cons_of_ne_nil hne
      rw [run_append, hbefore] at hrun
      have hset : u₁.cell.captured = some f := by rw [hcaptured, hf]; rfl
      rw [hset]
      exact captured_run hrun hset
  · intro f
    refine ⟨?_, _, u.run_undisturbed f, rfl, ?_⟩
    · have hcaptured := hfirst.captured_eq
      cases hoffers : u.offers <;>
        simp [FailureCell.trySet, FailureCell.offer, hcaptured, hoffers]
    · cases hwon : (u.cell.trySet f).1 <;> simp [results, Offer.result?]
  · rw [h.dropped, results, count_false]

/-- Two writers at once, and a third step that offers the captured failure again: one reader asks
before the first, one between the two steps of the second. -/
def contendedMoves : List CellMove :=
  [.ask .captured, .offer ⟨2, 0, .user "first" []⟩, .offer ⟨5, 1, .user "second" []⟩,
    .ask .captured, .offer ⟨2, 0, .user "first" []⟩, .count 2, .count 1, .ask .dropped]

theorem first_offer_wins_contended :
    ∃ u, ({} : CellUse).run contendedMoves = some u ∧
      u.results = [true, false, false] ∧ u.results.count true = 1 ∧
      u.cell.dropped = 2 ∧
      u.readings.map (·.answer) =
        [.captured none, .captured (some ⟨2, 0, .user "first" []⟩), .dropped 2] := by
  have hrun : (({} : CellUse).run contendedMoves).map
      (fun u => (u.results, u.readings.map (·.answer))) = some ([true, false, false],
        [.captured none, .captured (some ⟨2, 0, .user "first" []⟩), .dropped 2]) := by
    decide +kernel
  obtain ⟨u, hrun, hu⟩ := Option.map_eq_some_iff.mp hrun
  obtain ⟨hresults, hreadings⟩ := Prod.mk.inj hu
  obtain ⟨-, hone, -, -, -, -, -, hdropped⟩ := first_offer_wins hrun
  rw [hresults] at hone hdropped
  exact ⟨u, hrun, hresults, by rw [hresults]; exact hone (by simp), hdropped, hreadings⟩

end CellUse

end WorkBundle
