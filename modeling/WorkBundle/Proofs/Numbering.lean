import WorkBundle.Proofs.Attribution
import WorkBundle.Proofs.Barrier
import WorkBundle.Proofs.FailureCounts
import WorkBundle.Proofs.Regular

/-!
# Which number an item gets

An item gets the next number when its submission hands it to the backend, and not before. So the
numbers can be told from the answers alone (`numbered`): a submission has used one if its item was
accepted, or refused, which its failure tells by carrying that very number. A submission that met a
cancellation, came out of order, or was answered with a failure that was captured before, has used
none. `Numbers` says that the items of an engine are numbered like that, with the item of the call
in progress last if it has got that far.

What the engine tells of its items is the number that the next one gets, if there is a next one
(`dispatchedCount_next`). Together with what is known of the failures (`Machine.Explains`), the
number that a failure carries leads to the item that it is about. The producer of a whole bundle
submits its elements in order and stops at the first error, so there the number of an item is its
position (`Run.FirstOf`).
-/

set_option autoImplicit false

namespace WorkBundle

variable {α : Type}

/-- Has a submission with this answer handed its item over, if the next number was this one? A
refused item has used its number, which its own failure names; a submission that meets an older
failure has not. -/
def Reply.usesNumber (next : Nat) : Reply → Bool
  | .answer (.ok ()) => true
  | reply => reply.failure?.any (·.item == next)

/-- One more call has ended, and its item gets the next number if the reply `usesNumber`. -/
def giveNumber (items : List (WorkItem α)) : Call α × Reply → List (WorkItem α)
  | (.submit item, reply) => if reply.usesNumber items.length then items ++ [item] else items
  | _ => items

/-- The items to which these calls have given a number, in the order of the numbers (`giveNumber`).
It is computed from calls and replies alone. -/
def numbered (ended : List (Call α × Reply)) : List (WorkItem α) := ended.foldl giveNumber []

@[simp] theorem numbered_nil : numbered ([] : List (Call α × Reply)) = [] := rfl

theorem numbered_concat (ended : List (Call α × Reply)) (e : Call α × Reply) :
    numbered (ended ++ [e]) = giveNumber (numbered ended) e := by
  simp [numbered]

theorem Reply.usesNumber_of_failure {reply : Reply} {f : Failure} (h : reply.failure? = some f)
    (n : Nat) : reply.usesNumber n = (f.item == n) := by
  unfold usesNumber
  split
  · cases h
  · simp [h]

theorem numbered_concat_of_unused {ended : List (Call α × Reply)} {c : Call α} {reply : Reply}
    (h : (∀ item, c ≠ .submit item) ∨ reply.usesNumber (numbered ended).length = false) :
    numbered (ended ++ [(c, reply)]) = numbered ended := by
  rw [numbered_concat]
  cases c with
  | start | finish => rfl
  | submit item =>
    rcases h with h | h
    · exact absurd rfl (h item)
    · simp [giveNumber, h]

theorem numbered_concat_of_used {ended : List (Call α × Reply)} {item : WorkItem α} {reply : Reply}
    (h : reply.usesNumber (numbered ended).length = true) :
    numbered (ended ++ [(.submit item, reply)]) = numbered ended ++ [item] := by
  rw [numbered_concat]
  simp [giveNumber, h]

/-- What a submission has met that is answered with this failure, where so many items had a number
before: a failure of one of these, or the refusal of its own item. -/
def Failure.FoundAt (reason : String) (next : Nat) (f : Failure) : Prop :=
  f.item < next ∨ f.item = next ∧ f.cause = .execution (.backend next reason)

namespace Machine

variable {m₀ m m' : Machine α} {move : Move α} {moves : List (Move α)} {f : Failure}
  {reply : Reply} {current : Option (Call α)}

theorem Orderly.dispatched_eq (h : m.Orderly current) : m.dispatched = m.items.length := by
  rw [h.numbered, items, List.length_map]

theorem call_of_end (hord : m.Orderly current) (ht : Transition m move m')
    (own : move = .producer ∨ m.producer = .idle) (hreplies : m'.replies = m.replies ++ [reply]) :
    ∃ c, move.call?.or current = some c ∧
      (m.producer ≠ .idle → current = some c ∧ m.producer.stage? = some c.during) := by
  by_cases hidle : m.producer = .idle
  · have hcall : ∃ c, move.call? = some c := by
      cases ht with
      | violation => exact ⟨_, rfl⟩
      | start | submit | finish => exact ⟨_, rfl⟩
      | abandonStart phase | abandonFinish phase => cases hidle.symm.trans phase
      | abandonWait phase =>
        rcases phase with ⟨_, phase⟩ | phase
        all_goals cases hidle.symm.trans phase
      | producer step => exact absurd hidle (not_idle_of_producerStep step)
      | worker _ step =>
        rw [(SameCall.of_worker step).replies] at hreplies
        simp at hreplies
      | drop _ _ step =>
        rw [(SameCall.of_drop step).replies] at hreplies
        simp at hreplies
      | cancel | world => simp at hreplies
    obtain ⟨c, hc⟩ := hcall
    rw [hc]
    exact ⟨c, rfl, fun hbusy => absurd hidle hbusy⟩
  · obtain ⟨c, hcurrent, hphase, -⟩ := hord.call_of_busy hidle
    rw [call?_eq_none ht hidle, hcurrent]
    exact ⟨c, rfl, fun _ => ⟨rfl, hphase⟩⟩

/-! ## The numbers of an engine -/

/-- The items of an engine are those `numbered` by its ended calls, and that of the call in progress
if it has handed it over. Failures are found where `Failure.FoundAt` says. -/
structure Numbers (m₀ : Machine α) (moves : List (Move α)) (m : Machine α) : Prop where
  ended : m.producer.handed? = none → m.items = numbered (m₀.exchanges moves)
  inHand : ∀ n, m.producer.handed? = some n → ∃ item,
    lastCall none moves = some (.submit item) ∧
      m.items = numbered (m₀.exchanges moves) ++ [item] ∧
      n = (numbered (m₀.exchanges moves)).length
  met : ∀ earlier item r f later, m₀.exchanges moves = earlier ++ (.submit item, r) :: later →
    r.failure? = some f → f.FoundAt m₀.setup.backend.reason (numbered earlier).length

theorem Numbers.new (setup : Setup α) (scope : Scope) :
    (Machine.new setup scope).Numbers [] (.new setup scope) where
  ended := fun _ => rfl
  inHand := by
    intro n hn
    cases hn
  met := by
    intro earlier item r f later hsplit
    exact absurd hsplit.symm (by simp [exchanges, exchangesFrom])

theorem Numbers.unused (h : m₀.Numbers moves m) (hhanded : m.producer.handed? = none)
    (hitems : m'.items = m.items) {c : Call α}
    (hunused : (∀ item, c ≠ .submit item) ∨
      reply.usesNumber (numbered (m₀.exchanges moves)).length = false) :
    m'.items = numbered (m₀.exchanges moves ++ [(c, reply)]) := by
  rw [numbered_concat_of_unused hunused, hitems]
  exact h.ended hhanded

theorem Numbers.used (h : m₀.Numbers moves m) {n : Nat} (hhanded : m.producer.handed? = some n)
    (hitems : m'.items = m.items) {c : Call α} (hc : lastCall none moves = some c)
    (hused : reply.usesNumber n = true) :
    m'.items = numbered (m₀.exchanges moves ++ [(c, reply)]) := by
  obtain ⟨item, hlast, hbefore, rfl⟩ := h.inHand n hhanded
  obtain rfl : c = .submit item := Option.some.inj (hc.symm.trans hlast)
  rw [numbered_concat_of_used hused, hitems]
  exact hbefore

theorem Numbers.items_of_end (h : m₀.Numbers moves m) (hord : m.Orderly (lastCall none moves))
    (hcell : ∀ f, m.cell.captured = some f → f.item < m.dispatched) (ht : Transition m move m')
    (how : CallEnd m m' reply) {c : Call α}
    (hbusy : m.producer ≠ .idle →
      lastCall none moves = some c ∧ m.producer.stage? = some c.during) :
    m'.items = numbered (m₀.exchanges moves ++ [(c, reply)]) := by
  have hsame (hp : ∀ item, m.producer ≠ .handing item) : m'.items = m.items := items_step ht hp
  have hother {s : Stage} (hphase : m.producer.stage? = some s) (hs : s ≠ .started) :
      ∀ item, c ≠ .submit item := by
    rintro item rfl
    obtain ⟨-, hduring⟩ := hbusy (by intro hidle; rw [hidle] at hphase; cases hphase)
    rw [hphase] at hduring
    exact hs (Option.some.inj hduring)
  cases how with
  | violation phase =>
    exact h.unused (by rw [phase]; rfl) (hsame (by rw [phase]; nofun)) (Or.inr rfl)
  | startHook phase =>
    apply h.unused (by rw [phase]; rfl) (hsame (by rw [phase]; nofun))
    exact Or.inl (hother (s := .created) (by rw [phase]; rfl) nofun)
  | finishHook phase | failed phase =>
    apply h.unused (by rw [phase]; rfl) (hsame (by rw [phase]; nofun))
    exact Or.inl (hother (s := .finished) (by rw [phase]; rfl) nofun)
  | cancelled _ phase =>
    rcases phase with ⟨item, phase⟩ | phase
    all_goals exact h.unused (by rw [phase]; rfl) (hsame (by rw [phase]; nofun)) (Or.inr rfl)
  -- The failure that was captured is that of an item with a smaller number.
  | @tooLate item f phase full =>
    have hhanded : m.producer.handed? = none := by rw [phase]; rfl
    have hlt := hcell f full
    rw [hord.dispatched_eq, h.ended hhanded] at hlt
    apply h.unused hhanded (hsame (by rw [phase]; nofun))
    apply Or.inr
    rw [Reply.usesNumber_of_failure (f := f) rfl, beq_eq_false_iff_ne]
    omega
  | @left item phase hitems =>
    have hserves := hord.serves
    rw [phase] at hserves
    obtain ⟨hlast, -⟩ := hbusy (by rw [phase]; nofun)
    obtain rfl : c = .submit item := Option.some.inj (hlast.symm.trans hserves)
    rw [numbered_concat_of_used rfl, hitems, h.ended (by rw [phase]; rfl)]
  | taken phase =>
    rcases phase with phase | phase
    all_goals
      obtain ⟨hlast, -⟩ := hbusy (by rw [phase]; nofun)
      exact h.used (by rw [phase]; rfl) (hsame (by rw [phase]; nofun)) hlast rfl
  | @refused f phase | @outdone f phase =>
    obtain ⟨hlast, -⟩ := hbusy (by rw [phase]; nofun)
    apply h.used (n := f.item) (by rw [phase]; rfl) (hsame (by rw [phase]; nofun)) hlast
    rw [Reply.usesNumber_of_failure (f := f) rfl, beq_self_eq_true]

theorem Numbers.foundAt_of_end (h : m₀.Numbers moves m) (hord : m.Orderly (lastCall none moves))
    (hcell : ∀ f, m.cell.captured = some f → f.item < m.dispatched) (hj : m.Judged m.producer)
    (hsetup : m.setup = m₀.setup) (how : CallEnd m m' reply)
    (hbusy : m.producer ≠ .idle → m.producer.stage? = some .started)
    (hr : reply.failure? = some f) :
    f.FoundAt m₀.setup.backend.reason (numbered (m₀.exchanges moves)).length := by
  have hrefusal {g : Failure} (hp : m.producer.handed? = some g.item) (hg : m.IsRefusal g) :
      g.FoundAt m₀.setup.backend.reason (numbered (m₀.exchanges moves)).length := by
    obtain ⟨item, -, -, hnumber⟩ := h.inHand _ hp
    rw [← hnumber, ← hsetup]
    exact Or.inr ⟨rfl, hg.2⟩
  cases how with
  | violation | cancelled | left | taken => cases hr
  | startHook | finishHook =>
    rw [failure?_hookReply] at hr
    cases hr
  | tooLate phase full =>
    cases hr
    have hlt := hcell _ full
    rw [hord.dispatched_eq, h.ended (by rw [phase]; rfl)] at hlt
    exact Or.inl hlt
  | failed phase =>
    have hstage := hbusy (by rw [phase]; nofun)
    rw [phase] at hstage
    cases hstage
  | refused phase =>
    cases hr
    rw [phase] at hj
    exact hrefusal (by rw [phase]; rfl) hj
  | outdone phase =>
    cases hr
    rw [phase] at hj
    exact hrefusal (by rw [phase]; rfl) hj.1

theorem Numbers.step (h : m₀.Numbers moves m) (hord : m.Orderly (lastCall none moves))
    (hcell : ∀ f, m.cell.captured = some f → f.item < m.dispatched) (hj : m.Judged m.producer)
    (hsetup : m.setup = m₀.setup) (hrun : m₀.run moves = some m) (hstep : m.step move = some m') :
    m₀.Numbers (moves ++ [move]) m' := by
  have ht := transition_of_step hstep
  cases callStep ht with
  | goesOn replies _ hands =>
    have hex := exchanges_concat_of_silent hrun hstep replies
    rcases hands with ⟨hhanded, hitems⟩ | ⟨item, hp, hhanded, hitems⟩
    · refine ⟨?_, ?_, ?_⟩
      · rw [hhanded, hex, hitems]
        exact h.ended
      · intro n hn
        rw [hhanded] at hn
        have hbusy : m.producer ≠ .idle := by
          intro hidle
          rw [hidle] at hn
          cases hn
        rw [hex, hitems, lastCall_concat, call?_eq_none ht hbusy]
        exact h.inHand n hn
      · rw [hex]
        exact h.met
    -- The submission hands its item over: it gets the next number.
    · have hnone : m.producer.handed? = none := by rw [hp]; rfl
      have hserves := hord.serves
      rw [hp] at hserves
      refine ⟨?_, ?_, ?_⟩
      · intro hended
        rw [hhanded] at hended
        cases hended
      · intro n hn
        rw [hhanded] at hn
        cases hn
        rw [hex, hitems, lastCall_concat, call?_eq_none ht (by rw [hp]; nofun), ← h.ended hnone]
        exact ⟨item, hserves, rfl, hord.dispatched_eq⟩
      · rw [hex]
        exact h.met
  | @ends reply replies idle _ how own =>
    obtain ⟨c, hcall, hbusy⟩ := call_of_end hord ht own replies
    have hex := exchanges_concat_of_reply hrun hstep replies ((lastCall_concat _ _ _).trans hcall)
    refine ⟨?_, ?_, ?_⟩
    · intro _
      rw [hex]
      exact h.items_of_end hord hcell ht how hbusy
    · intro n hn
      rw [idle] at hn
      cases hn
    · intro earlier item r f later hsplit hr
      rw [hex] at hsplit
      rcases cut_of_concat hsplit with ⟨rfl, hpair⟩ | ⟨later', hold⟩
      · cases hpair
        exact h.foundAt_of_end hord hcell hj hsetup how (fun hp => (hbusy hp).2) hr
      · exact h.met earlier item r f later' hold hr

theorem numbers {setup : Setup α} {scope : Scope}
    (hrun : (Machine.new setup scope).run moves = some m) :
    (Machine.new setup scope).Numbers moves m := by
  refine run_induction (Numbers.new setup scope) ?_ hrun
  intro moves m m' move hrun h hstep
  apply h.step (drains hrun).orderly _ (judged_run hrun) (setup_run hrun) hrun hstep
  intro f hf
  exact ((explains hrun).carried f (Or.inl hf)).1

theorem replies_eq {setup : Setup α} {scope : Scope}
    (hrun : (Machine.new setup scope).run moves = some m) :
    m.replies = ((Machine.new setup scope).exchanges moves).map (·.2) := by
  refine run_induction (Q := fun moves m =>
    m.replies = ((Machine.new setup scope).exchanges moves).map (·.2)) rfl ?_ hrun
  intro moves m m' move hrun ih hstep
  have ht := transition_of_step hstep
  cases callStep ht with
  | goesOn replies =>
    rw [replies, exchanges_concat_of_silent hrun hstep replies]
    exact ih
  | ends replies _ _ _ own =>
    obtain ⟨c, hcall, -⟩ := call_of_end (drains hrun).orderly ht own replies
    rw [replies,
      exchanges_concat_of_reply hrun hstep replies ((lastCall_concat _ _ _).trans hcall), ih]
    simp

/-! ## The numbers of a whole bundle -/

/-- The items of `done` were handed over before, and `item` is being submitted, or its submission
was the last call. It was handed over if that has succeeded. -/
def Feeds (m : Machine α) (done : List (WorkItem α)) (item : WorkItem α) : Prop :=
  m.items = done ∧ m.producer.handed? = none ∧ ¬ (m.producer = .idle ∧ m.Succeeded) ∨
    m.items = done ++ [item] ∧ (m.producer.handed? ≠ none ∨ m.producer = .idle)

theorem CallEnd.hands_over (h : CallEnd m m' reply) (hok : reply = .answer (.ok ()))
    (hstage : m.producer.stage? = some .started ∨ m.producer = .idle) :
    (∃ item, m'.items = m.items ++ [item]) ∨ m.producer.handed? ≠ none := by
  cases h with
  | left _ hitems => exact Or.inl ⟨_, hitems⟩
  | taken phase =>
    apply Or.inr
    rcases phase with phase | phase
    all_goals
      rw [phase]
      nofun
  | startHook phase | finishHook phase =>
    rw [phase] at hstage
    rcases hstage with hstage | hstage <;> cases hstage
  | _ => cases hok

theorem ne_append_singleton {β : Type} (l : List β) (x : β) : l ≠ l ++ [x] := by
  intro heq
  have hlength := congrArg List.length heq
  simp at hlength

theorem Feeds.step {done : List (WorkItem α)} {item : WorkItem α} (h : m.Feeds done item)
    (ht : Transition m move m') (hinner : move.isInner = true)
    (hord : m.Orderly (some (.submit item)))
    (hstage : m.producer.stage? = some .started ∨ m.producer = .idle) : m'.Feeds done item := by
  rcases items_of_step hord ht with hitems | ⟨item', -, hp, hcurrent, hitems⟩
  · have hnew (x : WorkItem α) : m'.items ≠ m.items ++ [x] := by
      rw [hitems]
      exact ne_append_singleton _ _
    rcases h with ⟨hdone, hnone, hnot⟩ | ⟨hdone, hlast⟩
    · apply Or.inl
      cases callStep ht with
      | goesOn replies phase hands =>
        rcases hands with ⟨hhanded, -⟩ | ⟨x, -, -, hx⟩
        · refine ⟨hitems.trans hdone, hhanded.trans hnone, ?_⟩
          rintro ⟨hidle, hsucceeded⟩
          have hstage? := (phase hinner).1
          rw [hidle] at hstage?
          rw [Succeeded, replies] at hsucceeded
          exact hnot ⟨Run.idle_of_stage? hstage?.symm, hsucceeded⟩
        · exact absurd hx (hnew x)
      | ends replies idle _ how =>
        refine ⟨hitems.trans hdone, by rw [idle]; rfl, ?_⟩
        rintro ⟨-, hsucceeded⟩
        rw [Succeeded, replies, List.getLast?_concat] at hsucceeded
        rcases how.hands_over (Option.some.inj hsucceeded) hstage with ⟨x, hx⟩ | hhanded
        · exact hnew x hx
        · exact hhanded hnone
    · apply Or.inr
      refine ⟨hitems.trans hdone, ?_⟩
      cases callStep ht with
      | goesOn _ _ hands =>
        rcases hands with ⟨hhanded, -⟩ | ⟨x, -, -, hx⟩
        · rw [hhanded]
          exact hlast.imp_right (Run.idle_step ht hinner)
        · exact absurd hx (hnew x)
      | ends _ idle => exact Or.inr idle
  -- The item is handed over.
  · cases hcurrent
    have hdone : m.items = done := by
      rcases h with ⟨hdone, -⟩ | ⟨-, hhanded | hidle⟩
      · exact hdone
      · rw [hp] at hhanded
        exact absurd rfl hhanded
      · cases hp.symm.trans hidle
    apply Or.inr
    refine ⟨by rw [hitems, hdone], ?_⟩
    cases callStep ht with
    | goesOn _ _ hands =>
      rcases hands with ⟨-, hsame⟩ | ⟨_, -, hhanded, -⟩
      · rw [hitems] at hsame
        exact absurd hsame.symm (ne_append_singleton _ _)
      · rw [hhanded]
        exact Or.inl (Option.some_ne_none _)
    | ends _ idle => exact Or.inr idle

theorem Feeds.prefix_of {done rest : List (WorkItem α)} {item : WorkItem α}
    (h : m.Feeds done item) : m.items <+: done ++ item :: rest := by
  rcases h with ⟨hitems, -⟩ | ⟨hitems, -⟩
  · rw [hitems]
    exact List.prefix_append _ _
  · rw [hitems]
    exact ⟨rest, by simp⟩

theorem Feeds.of_succeeded {done : List (WorkItem α)} {item : WorkItem α} (h : m.Feeds done item)
    (hidle : m.producer = .idle) (hs : m.Succeeded) : m.items = done ++ [item] := by
  rcases h with ⟨-, -, hnot⟩ | ⟨hitems, -⟩
  · exact absurd ⟨hidle, hs⟩ hnot
  · exact hitems

theorem replies_mono (ht : Transition m move m') (hmem : reply ∈ m.replies) :
    reply ∈ m'.replies := by
  cases callStep ht with
  | goesOn replies =>
    rw [replies]
    exact hmem
  | ends replies =>
    rw [replies]
    exact List.mem_append_left _ hmem

end Machine

namespace Run

variable {r r' : Run α} {m m' : Machine α} {move : Move α} {plan : Plan α}
  {all : List (WorkItem α)}

/-- Which of all items were handed over, at each point of the `Plan`: a first part of them, since a
bundle submits its elements in the order of its list. -/
def FirstOf (all : List (WorkItem α)) (m : Machine α) : Plan α → Prop
  | .none => False
  | .opening items | .opened items => items = all
  | .feeding rest =>
    ∃ done item, all = done ++ item :: rest ∧ m.Orderly (some (.submit item)) ∧ m.Feeds done item
  | .closing _ | .over _ => m.items <+: all

/-- A failure with which the bundle will answer, or has answered, was the answer of a call: it is
found in `replies`. The bundle makes up no errors, it passes them on. -/
def Quotes (m : Machine α) : Plan α → Prop
  | .closing (some e) => .answer (.error e) ∈ m.replies
  | .over reply => ∀ f, reply.failure? = some f → reply ∈ m.replies
  | _ => True

structure Placed (all : List (WorkItem α)) (r : Run α) : Prop where
  sound : r.Sound
  orderly : ∃ current, r.machine.Orderly current
  first : FirstOf all r.machine r.plan
  quotes : Quotes r.machine r.plan

theorem FirstOf.prefix_of (h : FirstOf all m plan) (hf : Follows m plan) : m.items <+: all := by
  cases plan with
  | none => exact h.elim
  | opening =>
    rw [Machine.items, hf.2.2]
    exact List.nil_prefix
  | opened =>
    rw [Machine.items, hf.1]
    exact List.nil_prefix
  | feeding rest =>
    obtain ⟨done, item, rfl, -, hfeeds⟩ := h
    exact hfeeds.prefix_of
  | _ => exact h

theorem FirstOf.step (h : FirstOf all m plan) (hf : Follows m plan)
    (ht : Machine.Transition m move m') (hinner : move.isInner = true) : FirstOf all m' plan := by
  have hsame (hp : ∀ item, m.producer ≠ .handing item) : m'.items = m.items :=
    Machine.items_step ht hp
  cases plan with
  | none | opening | opened => exact h
  | feeding rest =>
    obtain ⟨done, item, hall, hord, hfeeds⟩ := h
    have hord' := hord.step ht
    rw [Follows.call?_of_isInner hinner] at hord'
    exact ⟨done, item, hall, hord', hfeeds.step ht hinner hord (hf.2.imp_right And.left)⟩
  | closing failed =>
    show m'.items <+: all
    rw [hsame]
    · exact h
    · intro item hp
      rcases hf.2 with hs | hquiet
      · rw [hp] at hs
        cases hs
      · cases hp.symm.trans hquiet.idle
  | _ =>
    show m'.items <+: all
    rw [hsame]
    · exact h
    · intro item hp
      cases hp.symm.trans hf.idle

theorem Quotes.step (h : Quotes m plan) (ht : Machine.Transition m move m') : Quotes m' plan := by
  cases plan with
  | none | opening | opened | feeding => trivial
  | closing failed =>
    cases failed with
    | none => trivial
    | some e => exact Machine.replies_mono ht h
  | _ =>
    intro f hf
    exact Machine.replies_mono ht (h f hf)

theorem lastReply_mem {f : Failure} (h : r.lastReply.failure? = some f) :
    r.lastReply ∈ r.machine.replies := by
  unfold lastReply at h ⊢
  cases hlast : r.machine.replies.getLast? with
  | none =>
    rw [hlast] at h
    cases h
  | some reply => exact List.mem_of_getLast? hlast

theorem items_beginCall (hp : m.producer = .idle) (c : Call α) :
    (m.beginCall c).items = m.items := by
  apply Machine.items_step (Machine.transition_of_beginCall c hp)
  rw [hp]
  nofun

theorem FirstOf.submit {item : WorkItem α} {items : List (WorkItem α)}
    (h : FirstOf all r.machine r.plan) (hf : Follows r.machine r.plan)
    (hp : r.machine.producer = .idle) {current : Option (Call α)}
    (hord : r.machine.Orderly current)
    (plan : r.plan = .opened (item :: items) ∨ r.plan = .feeding (item :: items))
    (last : r.lastReply = .answer (.ok ())) :
    FirstOf all (r.machine.beginCall (.submit item)) (.feeding items) := by
  have hord' : (r.machine.beginCall (.submit item)).Orderly (some (.submit item)) :=
    hord.step (Machine.transition_of_beginCall (.submit item) hp)
  have hfeeds {done : List (WorkItem α)} (hitems : r.machine.items = done) :
      (r.machine.beginCall (.submit item)).Feeds done item := by
    rw [Machine.beginCall_submit (hf.started hp plan last)]
    exact Or.inl ⟨hitems, rfl, fun hboth => by cases hboth.1⟩
  rcases plan with plan | plan
  · rw [plan] at h hf
    refine ⟨[], item, h.symm, hord', hfeeds ?_⟩
    rw [Machine.items, hf.1]
    rfl
  · rw [plan] at h
    obtain ⟨done, before, hall, -, hbefore⟩ := h
    have hitems := hbefore.of_succeeded hp (getLast?_of_lastReply last)
    exact ⟨done ++ [before], item, by rw [hall]; simp, hord', hfeeds hitems⟩

theorem FirstOf.next (h : FirstOf all r.machine r.plan) (hf : Follows r.machine r.plan)
    (hp : r.machine.producer = .idle) {current : Option (Call α)}
    (hord : r.machine.Orderly current) (hn : Next r r') : FirstOf all r'.machine r'.plan := by
  have hpart := h.prefix_of hf
  cases hn with
  | start plan =>
    rw [plan] at h
    exact h
  | submit plan last => exact h.submit hf hp hord plan last
  | finish | stop =>
    show (r.machine.beginCall .finish).items <+: all
    rw [items_beginCall hp]
    exact hpart
  | unopened | lost | close => exact hpart

theorem Quotes.next (h : Quotes r.machine r.plan) (hp : r.machine.producer = .idle)
    (hn : Next r r') : Quotes r'.machine r'.plan := by
  cases hn with
  | start | submit | finish => trivial
  | @stop items e plan last =>
    apply Machine.replies_mono (Machine.transition_of_beginCall .finish hp)
    exact List.mem_of_getLast? (getLast?_of_lastReply last)
  | unopened =>
    intro f hf
    exact lastReply_mem hf
  | lost =>
    intro f hf
    cases hf
  | close plan word =>
    rw [plan] at h
    intro f hf
    rcases word with ⟨rfl, -⟩ | ⟨e, rfl, rfl⟩
    · exact lastReply_mem hf
    · exact h

namespace Placed

theorem bundle (setup : Setup α) (scope : Scope) (items : List (WorkItem α)) :
    (Run.bundle (.new setup scope) items).Placed items where
  sound := .bundle setup scope items
  orderly := ⟨none, .new setup scope⟩
  first := rfl
  quotes := trivial

theorem step (h : r.Placed all) (hinner : move.isInner = true) (hstep : r.step move = some r') :
    r'.Placed all := by
  have hsound := h.sound.step hinner hstep
  obtain ⟨current, hord⟩ := h.orderly
  rcases step_cases hstep with ⟨-, hp, hproceed⟩ | ⟨m', hm', rfl⟩
  · have hn := next_of_proceed hproceed
    refine ⟨hsound, ?_, h.first.next h.sound.follows hp hord hn, h.quotes.next hp hn⟩
    rcases next_machine hn with heq | ⟨c, heq⟩
    · rw [heq]
      exact ⟨current, hord⟩
    · rw [heq]
      exact ⟨_, hord.step (Machine.transition_of_beginCall c hp)⟩
  · have ht := Machine.transition_of_step hm'
    exact ⟨hsound, ⟨_, hord.step ht⟩, h.first.step h.sound.follows ht hinner, h.quotes.step ht⟩

theorem run (h : r.Placed all) {inner : List (Move α)}
    (hinner : ∀ move ∈ inner, move.isInner = true) (hfollow : r.follow inner = some r') :
    r'.Placed all :=
  follow_invariant (fun h hmove hstep => h.step hmove hstep) h hinner hfollow

theorem quoted (h : r.Placed all) {reply : Reply} {f : Failure} (hresult : r.result? = some reply)
    (hf : reply.failure? = some f) : reply ∈ r.machine.replies := by
  have hquotes := h.quotes
  rw [plan_of_result? hresult] at hquotes
  exact hquotes f hf

end Placed

end Run

namespace Machine

variable {m : Machine α} {moves : List (Move α)} {setup : Setup α} {scope : Scope}

theorem dispatchedCount_eq (hrun : (Machine.new setup scope).run moves = some m)
    (hopen : m.stage ≠ .finished) : m.dispatchedCount = m.items.length := by
  unfold dispatchedCount
  cases hstage : m.stage with
  | created => rw [items, workers_of_created hrun hstage]; rfl
  | started => exact (drains hrun).orderly.dispatched_eq
  | finished => exact absurd hstage hopen

theorem dispatchedCount_next (hrun : (Machine.new setup scope).run moves = some m)
    {later : List (Move α)} {m' : Machine α} {item : WorkItem α} {rest : List (WorkItem α)}
    (hlater : m.run later = some m') (hnext : m'.items = m.items ++ item :: rest) :
    m'.items[m.dispatchedCount]? = some item := by
  have hopen : m.stage ≠ .finished := by
    intro hs
    rw [items_of_finished hrun hs hlater] at hnext
    simp at hnext
  rw [dispatchedCount_eq hrun hopen, hnext]
  simp

theorem failure_lt (hrun : (Machine.new setup scope).run moves = some m) {f : Failure}
    (hf : m.failure = some f) : f.item < m.dispatchedCount := by
  unfold failure at hf
  unfold dispatchedCount
  cases hstage : m.stage with
  | started =>
    rw [hstage] at hf
    exact ((explains hrun).carried f (Or.inl hf)).1
  | created | finished =>
    rw [hstage] at hf
    cases hf

/-- A failure that a call was answered with is `Explained`, so its number and its cause are those of
the move at which it arose. -/
theorem explained_of_reply (hrun : (Machine.new setup scope).run moves = some m) {reply : Reply}
    {f : Failure} (hmem : reply ∈ m.replies) (hr : reply.failure? = some f) :
    (Machine.new setup scope).Explained moves m f := by
  rw [replies_eq hrun] at hmem
  obtain ⟨⟨c, reply⟩, hpair, rfl⟩ := List.mem_map.mp hmem
  exact (explains hrun).returned c reply f hpair hr

theorem explained_of_bundle {items : List (WorkItem α)} {inner : List (Move α)} {r : Run α}
    (hplaced : r.Placed items)
    (hfollow : (Run.bundle (Machine.new setup scope) items).follow inner = some r) {f : Failure}
    (hf : r.machine.cell.captured = some f ∨
      ∃ reply, r.result? = some reply ∧ reply.failure? = some f) :
    ∃ moves, (Machine.new setup scope).run moves = some r.machine ∧
      (Machine.new setup scope).Explained moves r.machine f := by
  obtain ⟨expanded, hrun, -⟩ := Run.follow_machine hfollow
  refine ⟨expanded, hrun, ?_⟩
  rcases hf with hcell | ⟨reply, hresult, hr⟩
  · exact (explains hrun).carried f (Or.inl hcell)
  · exact explained_of_reply hrun (hplaced.quoted hresult hr) hr

/-- **What a failure tells of.** In every run the items are numbered in the order in which their
submissions have handed them over: each that was accepted has used a number, each that was refused
has, and no other. The number that the engine tells is that of the item that is handed over next, at
any time; and until it is finished, it is how many were handed over. A submission that is answered
with a failure has met one of a smaller number, or the refusal of its own item.

Every failure that is captured, or that a call was answered with, carries the number of an item that
was handed over, and it arose when just what its cause says happened to that item. In a whole bundle
that number is the position of the element among those that the bundle was given. -/
theorem failures_tell_their_items (hrun : (Machine.new setup scope).run moves = some m) :
    let m₀ := Machine.new setup scope
    let ended := m₀.exchanges moves
    (m.producer.handed? = none → m.items = numbered ended) ∧
    (∀ n, m.producer.handed? = some n → ∃ item, lastCall none moves = some (.submit item) ∧
      m.items = numbered ended ++ [item] ∧ n = (numbered ended).length) ∧
    m.dispatched = m.items.length ∧
    (m.stage ≠ .finished → m.dispatchedCount = m.items.length) ∧
    (∀ later m' item rest, m.run later = some m' → m'.items = m.items ++ item :: rest →
      m'.items[m.dispatchedCount]? = some item) ∧
    (∀ f, m.failure = some f → f.item < m.dispatchedCount) ∧
    (∀ earlier item r f later, ended = earlier ++ (.submit item, r) :: later →
      r.failure? = some f → f.item < (numbered earlier).length ∨
        f.item = (numbered earlier).length ∧
          f.cause = .execution (.backend f.item setup.backend.reason)) ∧
    (∀ f, (m.cell.captured = some f ∨ ∃ c r, (c, r) ∈ ended ∧ r.failure? = some f) →
      f.item < m.items.length ∧
        m₀.Happens moves fun m move => m.minted = f.identity ∧ m.Mishap move f.item f.cause) ∧
    ∀ items inner r, (∀ move ∈ inner, move.isInner = true) →
      (Run.bundle m₀ items).follow inner = some r →
        r.machine.items <+: items ∧
        ∀ f, (r.machine.cell.captured = some f ∨
            ∃ reply, r.result? = some reply ∧ reply.failure? = some f) →
          (∃ item, items[f.item]? = some item ∧ r.machine.items[f.item]? = some item) ∧
            ∃ moves, m₀.run moves = some r.machine ∧ m₀.Happens moves fun m move =>
              m.minted = f.identity ∧ m.Mishap move f.item f.cause := by
  intro m₀ ended
  have hord := (drains hrun).orderly
  have hnumbers := numbers hrun
  have hexplains := explains hrun
  refine ⟨hnumbers.ended, hnumbers.inHand, hord.dispatched_eq, dispatchedCount_eq hrun,
    fun _ _ _ _ hlater hnext => dispatchedCount_next hrun hlater hnext,
    fun _ hf => failure_lt hrun hf, ?_, ?_, ?_⟩
  · intro earlier item r f later hsplit hr
    apply (hnumbers.met earlier item r f later hsplit hr).imp_right
    rintro ⟨hitem, hcause⟩
    rw [hitem]
    exact ⟨rfl, hcause⟩
  · intro f hf
    rw [← hord.dispatched_eq]
    rcases hf with hcell | ⟨c, r, hmem, hr⟩
    · exact hexplains.carried f (Or.inl hcell)
    · exact hexplains.returned c r f hmem hr
  · intro items inner r hinner hfollow
    have hplaced := (Run.Placed.bundle setup scope items).run hinner hfollow
    have hpart := hplaced.first.prefix_of hplaced.sound.follows
    refine ⟨hpart, ?_⟩
    intro f hf
    obtain ⟨expanded, hexp, hlt, harises⟩ := explained_of_bundle hplaced hfollow hf
    rw [(drains hexp).orderly.dispatched_eq] at hlt
    have hitem := List.getElem?_eq_getElem hlt
    exact ⟨⟨_, List.prefix_iff_getElem?.mp hpart _ hlt, hitem⟩, expanded, hexp, harises⟩

/-- The backend refuses the second item that it is offered. -/
def pickySetup : Setup Nat where
  processor := { name := "picky" }
  backend := { name := "picky", receive := fun n => if n = 1 then { verdict := .refuse } else {} }

/-- Of four items the first is accepted and the second refused; the third submission meets the
refusal, and the last one a cancellation. -/
def pickyMoves : List (Move Nat) :=
  [.call .start, .producer,
    .call (.submit { value := 7 }), .producer, .producer, .producer,
    .call (.submit { value := 8 }), .producer, .producer, .producer,
    .producer, .worker 1, .producer, .producer,
    .call (.submit { value := 9 }), .producer, .producer,
    .cancel, .call (.submit { value := 10 }), .producer]

/-- The same for the producer of a whole bundle, until it finishes the bundle. -/
def pickyInner : List (Move Nat) := List.replicate 11 .producer ++ [.worker 1, .producer, .producer]

theorem failures_tell_their_items_picky :
    ∃ m f r, (Machine.new pickySetup).run pickyMoves = some m ∧
      ((Machine.new pickySetup).exchanges pickyMoves).map (·.2.failure?) =
        [none, none, some f, some f, none] ∧
      m.items = numbered ((Machine.new pickySetup).exchanges pickyMoves) ∧
      m.items.map (·.value) = [7, 8] ∧ m.dispatchedCount = 2 ∧
      m.cell.captured = some f ∧ f.item < 2 ∧
      (Machine.new pickySetup).Happens pickyMoves
        (fun m move => m.minted = f.identity ∧ m.Mishap move f.item f.cause) ∧
      (Run.bundle (Machine.new pickySetup) [{ value := 7 }, { value := 8 }, { value := 9 }]).follow
        pickyInner = some r ∧ r.machine.items <+: [{ value := 7 }, { value := 8 }, { value := 9 }] ∧
      r.machine.cell.captured = some f := by
  let f : Failure := ⟨1, 0, .execution (.backend 1 pickySetup.backend.reason)⟩
  have hstate : ((Machine.new pickySetup).run pickyMoves).map (fun m =>
      (m.isBusy, m.stage, m.items.map (·.value), m.cell.captured)) =
        some (false, .started, [7, 8], some f) := by
    decide +kernel
  have hended : ((Machine.new pickySetup).exchanges pickyMoves).map (·.2.failure?) =
      [none, none, some f, some f, none] := by decide +kernel
  have hbundle : ((Run.bundle (Machine.new pickySetup)
      [{ value := 7 }, { value := 8 }, { value := 9 }]).follow pickyInner).map
        (·.machine.cell.captured) = some (some f) := by decide +kernel
  obtain ⟨m, hrun, hm⟩ := Option.map_eq_some_iff.mp hstate
  obtain ⟨hbusy, hstage, hvalues, hcell⟩ : m.isBusy = false ∧ m.stage = .started ∧
      m.items.map (·.value) = [7, 8] ∧ m.cell.captured = some f := by simpa using hm
  obtain ⟨r, hfollow, hr⟩ := Option.map_eq_some_iff.mp hbundle
  have hlength : m.items.length = 2 := by simpa using congrArg List.length hvalues
  obtain ⟨hnumbered, -, -, hcount, -, -, -, hfailures, hplaced⟩ := failures_tell_their_items hrun
  obtain ⟨hlt, harises⟩ := hfailures f (Or.inl hcell)
  have hinner : ∀ move ∈ pickyInner, move.isInner = true := by
    intro move hmem
    simp only [pickyInner, List.mem_append, List.mem_replicate, List.mem_cons,
      List.not_mem_nil, or_false] at hmem
    rcases hmem with ⟨-, rfl⟩ | rfl | rfl | rfl
    all_goals rfl
  refine ⟨m, f, r, hrun, hended, ?_, hvalues, ?_, hcell, hlength ▸ hlt, harises, hfollow,
    (hplaced _ _ r hinner hfollow).1, hr⟩
  · apply hnumbered
    rw [idle_of_not_busy hbusy]
    rfl
  · rw [hcount (by rw [hstage]; nofun)]
    exact hlength

end Machine

end WorkBundle
