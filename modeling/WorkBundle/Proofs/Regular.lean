import WorkBundle.Proofs.Prefix

/-!
# What holds of every bundle

A whole bundle on a faithful backend, with nobody to break off a call or a task, is regular
(`Run.Regular`): its tickets are in balance, its calls in order, its failures accounted for, and
which items were submitted follows from its plan. When it is over, the items that were processed
are those that the backend has accepted.
-/

set_option autoImplicit false

namespace WorkBundle

variable {α : Type}

namespace Run

variable {m m' : Machine α} {move : Move α} {plan : Plan α} {all : List (WorkItem α)}

theorem inFlight_nil (hworkers : m.workers = []) : Machine.inFlight m.workers = 0 := by
  rw [hworkers]
  rfl

theorem hook?_of_feeding {rest : List (WorkItem α)} (hf : Follows m (.feeding rest)) :
    m.producer.hook? = none := by
  obtain ⟨-, hp⟩ := hf
  cases hproducer : m.producer with
  | starting | finishing =>
    rw [hproducer] at hp
    rcases hp with hp | ⟨hp, -⟩ <;> cases hp
  | _ => rfl

theorem idle_step (ht : Machine.Transition m move m') (hinner : move.isInner = true)
    (hp : m.producer = .idle) : m'.producer = .idle := by
  cases Machine.callStep ht with
  | goesOn _ phase =>
    have hstage := (phase hinner).1
    rw [hp] at hstage
    exact idle_of_stage? hstage
  | ends _ idle => exact idle

theorem isFinishing_beginCall (m : Machine α) (c : Call α) :
    (m.beginCall c).producer.isFinishing = false := by
  cases c
  all_goals
    unfold Machine.beginCall
    dsimp only
    split <;> rfl

theorem Submitted.next_item {item : WorkItem α} (h : Submitted all m plan)
    (hf : Follows m plan) (hp : m.producer = .handing item) :
    all[m.workers.length]? = some item := by
  cases plan with
  | none => exact h.elim
  | opening => cases hp.symm.trans hf.2.1
  | opened =>
    rcases hf.2 with ⟨a, hp'⟩ | ⟨hp', -⟩
    all_goals cases hp.symm.trans hp'
  | feeding rest =>
    obtain ⟨done, item', hall, hord, hfed⟩ := h
    have hserves := hord.serves
    rw [hp] at hserves
    cases hserves
    rcases hfed.last with ⟨hitems, -⟩ | ⟨-, hhanded | ⟨idle, -⟩⟩
    · have hlength : m.workers.length = done.length := by
        rw [← hitems, Machine.items, List.length_map]
      rw [hall, hlength]
      simp
    · rw [hp] at hhanded
      cases hhanded
    · cases hp.symm.trans idle
  | closing =>
    rcases hf.2 with hs | hquiet
    · rw [hp] at hs
      cases hs
    · cases hp.symm.trans hquiet.idle
  | _ => cases hp.symm.trans hf.idle

/-- What holds of a bundle all along: the invariants of its engine and, by `Submitted` and `Blamed`,
what its calls were answered. -/
structure Regular (r : Run α) (all : List (WorkItem α)) : Prop where
  sound : r.Sound
  orderly : ∃ current, r.machine.Orderly current
  accounted : r.machine.Accounted
  judged : r.machine.Judged r.machine.producer
  faithful : r.machine.setup.backend.IsFaithful
  barred : r.machine.Barred
  submitted : Submitted all r.machine r.plan
  blamed : Blamed r.machine r.plan

namespace Regular

variable {r r' : Run α}

theorem new {setup : Setup α} {scope : Scope} (hfaithful : setup.backend.IsFaithful) :
    (Run.bundle (.new setup scope) all).Regular all where
  sound := .bundle setup scope all
  orderly := ⟨none, .new setup scope⟩
  accounted := .new setup scope
  judged := trivial
  faithful := hfaithful
  barred := .new setup scope
  submitted := rfl
  blamed := fun _ _ hlast _ => by cases hlast

theorem mem (h : r.Regular all) {item : WorkItem α} (hp : r.machine.producer = .handing item) :
    item ∈ all :=
  List.mem_of_getElem? (h.submitted.next_item h.sound.follows hp)

theorem next (h : r.Regular all) (hp : r.machine.producer = .idle) (hn : Next r r')
    (hsound : r'.Sound) : r'.Regular all := by
  have hsubmitted := h.submitted.next h.blamed h.sound.follows hp h.orderly hn
  have hblamed := h.blamed.next h.sound.follows hp hn
  obtain ⟨current, hord⟩ := h.orderly
  rcases next_machine hn with heq | ⟨c, heq⟩
  · refine ⟨hsound, ⟨current, ?_⟩, ?_, ?_, ?_, ?_, hsubmitted, hblamed⟩
    all_goals rw [heq]
    · exact hord
    · exact h.accounted
    · exact h.judged
    · exact h.faithful
    · exact h.barred
  · have ht := Machine.transition_of_beginCall c hp
    refine ⟨hsound, ⟨some c, ?_⟩, ?_, ?_, ?_, ?_, hsubmitted, hblamed⟩
    all_goals rw [heq]
    · exact hord.step ht
    · exact h.accounted.step ht
    · exact Machine.judged_step h.judged ht
    · rw [(Machine.cellStep ht).2.setup]
      exact h.faithful
    · exact h.barred.step ht nofun h.faithful h.judged h.accounted hord.numbered

theorem step (h : r.Regular all) (hinner : move.isInner = true)
    (hkept : ∀ n, move ≠ .drop n) (hstep : r.step move = some r') : r'.Regular all := by
  have hsound := h.sound.step hinner hstep
  rcases step_cases hstep with ⟨-, hp, hproceed⟩ | ⟨m', hm', rfl⟩
  · exact h.next hp (next_of_proceed hproceed) hsound
  · have ht := Machine.transition_of_step hm'
    have hfollows := h.sound.follows
    obtain ⟨current, hord⟩ := h.orderly
    refine ⟨hsound, ⟨_, hord.step ht⟩, h.accounted.step ht, Machine.judged_step h.judged ht, ?_,
      h.barred.step ht hkept h.faithful h.judged h.accounted hord.numbered,
      h.submitted.step ht hinner h.faithful hfollows, h.blamed.step ht hfollows⟩
    rw [(Machine.cellStep ht).2.setup]
    exact h.faithful

end Regular

end Run

namespace Machine

/-! ## When it is over -/

/-- The item with this number was processed: its worker has begun, and has ended (`ending?`). -/
def Processed (m : Machine α) (n : Nat) : Prop :=
  ∃ w e, m.workers[n]? = some w ∧ w.phase.ending? = some e ∧ e ≠ .unstarted

variable {m : Machine α} {all : List (WorkItem α)} {k : Nat}

theorem exists_worker {n : Nat} (hn : n < m.items.length) :
    ∃ w, m.workers[n]? = some w ∧ m.items[n]? = some w.item := by
  have hlt : n < m.workers.length := by
    rwa [items, List.length_map] at hn
  refine ⟨_, List.getElem?_eq_getElem hlt, ?_⟩
  rw [items, List.getElem?_map, List.getElem?_eq_getElem hlt]
  rfl

/-- The items that were `Processed` are those that were accepted. When nothing is under way a worker
has ended, and only a refusal leaves one that never began. -/
theorem processed_iff (hbarred : m.Barred) (hq : m.Quiet) (hhanded : m.Handed all k) (n : Nat) :
    m.Processed n ↔ n < k := by
  constructor
  · rintro ⟨w, e, hw, hend, hne⟩
    have hlt := (List.getElem?_eq_some_iff.mp hw).1
    have hitem : n < m.items.length := by rwa [items, List.length_map]
    refine (hhanded.kept n hitem).mp ?_
    by_contra hrefused
    rcases hbarred.refused n hlt hrefused with ⟨hp, -⟩ | ⟨w', hw', hend'⟩
    · cases hp.symm.trans hq.idle
    · obtain rfl : w' = w := Option.some.inj (hw'.symm.trans hw)
      rw [hend] at hend'
      exact hne (Option.some.inj hend')
  · intro hn
    have hitem : n < m.items.length := Nat.lt_of_lt_of_le hn hhanded.bound
    obtain ⟨w, hw, -⟩ := exists_worker hitem
    obtain ⟨e, hend, -⟩ := ending_of_inFlight_zero hq.empty hw
    refine ⟨w, e, hw, hend, ?_⟩
    rintro rfl
    exact hbarred.kept n ⟨w, hw, hend⟩ ((hhanded.kept n hitem).mpr hn)

end Machine

end WorkBundle
