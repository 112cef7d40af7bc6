import WorkBundle.Gate
import WorkBundle.Proofs.Permits
import Mathlib.Data.Fintype.Card

/-!
# Tickets at a gate

A gate never has more or fewer tickets than its capacity: what is free, what calls have gathered and
what is held add up to it (`Gate.Balanced`). The number held is not a field of the gate — a ticket
that was granted is in somebody's hands — so it is a parameter here, and each operation says
how it moves.

`asks` says which calls are under way and what they want. A call has at most one claim, made the
first time it is asked, and the claim is for exactly what the call wants; this is what makes a
granted drain worth the whole capacity.
-/

set_option autoImplicit false

namespace WorkBundle

variable {ι : Type}

theorem filter_eq_singleton_of_nodup {α : Type} [DecidableEq ι] (key : α → ι) {l : List α} {d : α}
    (hn : (l.map key).Nodup) (hd : d ∈ l) : l.filter (key · == key d) = [d] := by
  induction l with
  | nil => exact absurd hd (by simp)
  | cons e l ih =>
    simp only [List.map_cons, List.nodup_cons, List.mem_map, not_exists, not_and] at hn
    obtain ⟨hnew, hn⟩ := hn
    rcases List.mem_cons.mp hd with rfl | hd
    · have hrest : l.filter (key · == key d) = [] := by
        refine List.filter_eq_nil_iff.mpr fun e he => ?_
        simpa using hnew e he
      simp [hrest]
    · have hne : key e ≠ key d := fun h => hnew d hd h.symm
      rw [List.filter_cons_of_neg (by simpa using hne)]
      exact ih hn hd

theorem GateRequest.need_pos (r : GateRequest) (c : Parallelism) : 0 < r.need c.count := by
  have := c.one_le
  cases r with
  | ticket => exact Nat.one_pos
  | everything => exact this

theorem GateRequest.need_le (r : GateRequest) (c : Parallelism) : r.need c.count ≤ c.count := by
  cases r with
  | ticket => exact c.one_le
  | everything => exact Nat.le_refl _

/-- No capacity is lost on the way to the line: it has at most seventeen bits, and the line takes
numbers of thirty-two. So a drain claims every ticket there is. -/
theorem GateRequest.claim_eq (r : GateRequest) (c : Parallelism) :
    r.claim c.count = r.need c.count := by
  have hle : c.count ≤ 65536 := c.le_max
  cases r with
  | ticket => rfl
  | everything =>
    show (UInt32.ofNat c.count).toNat = c.count
    rw [UInt32.toNat_ofNat']
    apply Nat.mod_eq_of_lt
    omega

namespace Gate

/-- The gate once a call that is asked has its claim in the line. `ask_eq` cuts `Gate.ask` in two
here: joining the line, and looking whether that was enough. -/
def queued [DecidableEq ι] (g : Gate ι) (id : ι) (r : GateRequest) : Gate ι :=
  { g with
    permits :=
      if g.permits.claims id then g.permits else g.permits.join id (r.need g.capacity.count) }

theorem ask_eq [DecidableEq ι] (g : Gate ι) (id : ι) (r : GateRequest) :
    g.ask id r =
      if g.cancelled then (g.leave id, some (.error (.cancelled r.point)))
      else if (g.queued id r).permits.isGranted id then
        ({ g with permits := (g.queued id r).permits.collect id }, some (.ok ()))
      else (g.queued id r, none) := by
  rw [queued, ← r.claim_eq]
  rfl

/-- The tickets of the gate add up to its capacity when `held` of them are in somebody's hands, and
every claim belongs to a call that is under way. Who holds the tickets is left open, which is what
lets workers, drains and the callers of a bare gate share this invariant. -/
structure Balanced (g : Gate ι) (asks : ι → Option GateRequest) (held : Nat) : Prop where
  sound : g.permits.Sound
  balance : g.permits.total + held = g.capacity.count
  nodup : (g.permits.demands.map (·.1)).Nodup
  asked : ∀ d ∈ g.permits.demands, ∃ r, asks d.1 = some r ∧ d.2 = r.need g.capacity.count

namespace Balanced

variable {g : Gate ι} {asks : ι → Option GateRequest} {held : Nat}

theorem new (c : Parallelism) (asks : ι → Option GateRequest) : (Gate.new c).Balanced asks 0 where
  sound := Permits.sound_new _
  balance := by simp [Gate.new, Permits.total]
  nodup := by simp [Gate.new, Permits.demands]
  asked := by simp [Gate.new, Permits.demands]

theorem cancel (h : g.Balanced asks held) : g.cancel.Balanced asks held :=
  ⟨h.sound, h.balance, h.nodup, h.asked⟩

/-- Calls may begin without a trace at the gate: they claim when they are first asked, so `asks` may
name more calls than the line has claims. -/
theorem mono (h : g.Balanced asks held) {asks' : ι → Option GateRequest}
    (hle : ∀ id r, asks id = some r → asks' id = some r) : g.Balanced asks' held := by
  refine ⟨h.sound, h.balance, h.nodup, fun d hd => ?_⟩
  obtain ⟨r, hr, hn⟩ := h.asked d hd
  exact ⟨r, hle _ _ hr, hn⟩

theorem release {n : Nat} (h : g.Balanced asks (held + n)) : (g.release n).Balanced asks held := by
  have hperm := Permits.demands_release g.permits n
  refine ⟨h.sound.release n, ?_, ?_, ?_⟩
  · have hb := h.balance
    show (g.permits.release n).total + held = g.capacity.count
    rw [Permits.total_release h.sound.lacking]
    omega
  · exact (hperm.map _).nodup_iff.mpr h.nodup
  · intro d hd
    exact h.asked d (hperm.mem_iff.mp hd)

/-- What is `outstanding` is what is not free: tickets that are out and those that are gathered. -/
theorem outstanding_eq (h : g.Balanced asks held) :
    g.outstanding = gatheredBy g.permits.waiting + gatheredBy g.permits.granted + held := by
  have hb := h.balance
  simp only [Permits.total] at hb
  simp only [outstanding]
  omega

section

variable [DecidableEq ι]

theorem leave (h : g.Balanced asks held) (id : ι) :
    (g.leave id).Balanced (Function.update asks id none) held := by
  have hperm := Permits.demands_leave g.permits id
  refine ⟨h.sound.leave id, ?_, ?_, ?_⟩
  · show (g.permits.leave id).total + held = g.capacity.count
    rw [Permits.total_leave h.sound]
    exact h.balance
  · refine (hperm.map _).nodup_iff.mpr ?_
    exact h.nodup.sublist (List.filter_sublist.map _)
  · intro d hd
    obtain ⟨hmem, hne⟩ := List.mem_filter.mp (hperm.mem_iff.mp hd)
    obtain ⟨r, hr, hn⟩ := h.asked d hmem
    have hne : d.1 ≠ id := by simpa using hne
    exact ⟨r, by rw [Function.update_of_ne hne]; exact hr, hn⟩

theorem queued (h : g.Balanced asks held) {id : ι} {r : GateRequest} (hr : asks id = some r) :
    (g.queued id r).Balanced asks held := by
  unfold Gate.queued
  cases hc : g.permits.claims id with
  | true => exact h
  | false =>
    have hneed := r.need_pos g.capacity
    have hperm := Permits.demands_join g.permits id (r.need g.capacity.count)
    refine ⟨h.sound.join id hneed, ?_, ?_, ?_⟩
    · show (g.permits.join id (r.need g.capacity.count)).total + held = g.capacity.count
      rw [Permits.total_join h.sound id hneed]
      exact h.balance
    · refine (hperm.map _).nodup_iff.mpr ?_
      rw [Permits.claims_eq_any_demands] at hc
      refine List.nodup_cons.mpr ⟨?_, h.nodup⟩
      intro hmem
      obtain ⟨d, hd, hid⟩ := List.mem_map.mp hmem
      exact absurd hid (by simpa using List.any_eq_false.mp hc d hd)
    · intro d hd
      rcases List.mem_cons.mp (hperm.mem_iff.mp hd) with rfl | hd
      · exact ⟨r, hr, rfl⟩
      · exact h.asked d hd

theorem collected (h : g.Balanced asks held) {id : ι} {r : GateRequest} (hr : asks id = some r)
    (hgranted : g.permits.isGranted id) :
    Balanced { g with permits := g.permits.collect id } (Function.update asks id none)
      (held + r.need g.capacity.count) := by
  obtain ⟨c, hc, hid⟩ := List.any_eq_true.mp hgranted
  have hid : c.id = id := by simpa using hid
  have hmem : c.demand ∈ g.permits.demands :=
    List.mem_map_of_mem (List.mem_append_right _ hc)
  obtain ⟨r', hr', hneed⟩ := h.asked _ hmem
  have hdemand : c.demand = (id, r.need g.capacity.count) := by
    have hsame : r' = r := by
      rw [show c.demand.1 = id from hid, hr] at hr'
      exact (Option.some.inj hr').symm
    rw [hsame] at hneed
    exact Prod.ext hid hneed
  rw [hdemand] at hmem
  have hone : g.permits.demands.filter (·.1 == id) = [(id, r.need g.capacity.count)] :=
    filter_eq_singleton_of_nodup (·.1) h.nodup hmem
  have hfilter : (g.permits.collect id).demands = g.permits.demands.filter (·.1 != id) := by
    -- Nothing of `id` waits: its one claim is among the granted.
    have hwait : (g.permits.waiting.map PermitClaim.demand).filter (·.1 != id) =
        g.permits.waiting.map PermitClaim.demand := by
      refine List.filter_eq_self.mpr fun d hd => ?_
      have hnodup := h.nodup
      simp only [Permits.demands, List.map_append] at hnodup
      have hdisj := (List.nodup_append.mp hnodup).2.2
      have hne : d.1 ≠ id := fun hd' =>
        hdisj d.1 (List.mem_map_of_mem hd) id
          (List.mem_map.mpr ⟨c.demand, List.mem_map_of_mem hc, hid⟩) hd'
      simpa using hne
    rw [Permits.demands_collect, Permits.demands, List.map_append, List.filter_append, hwait]
  refine ⟨h.sound.collect id, ?_, ?_, ?_⟩
  · have htotal := Permits.total_collect h.sound hone hgranted
    have hb := h.balance
    show (g.permits.collect id).total + (held + r.need g.capacity.count) = g.capacity.count
    omega
  · rw [hfilter]
    exact h.nodup.sublist (List.filter_sublist.map _)
  · intro d hd
    rw [hfilter] at hd
    obtain ⟨hd, hne⟩ := List.mem_filter.mp hd
    obtain ⟨s, hs, hn⟩ := h.asked d hd
    have hne : d.1 ≠ id := by simpa using hne
    exact ⟨s, by rw [Function.update_of_ne hne]; exact hs, hn⟩

end

end Balanced

/-! ## Asking

The three answers of a call, each with what it leaves behind. -/

section

variable [DecidableEq ι] {g g' : Gate ι} {asks : ι → Option GateRequest} {held : Nat} {id : ι}
  {r : GateRequest}

theorem ask_frame {answer : Option Answer} (h : g.ask id r = (g', answer)) :
    g'.capacity = g.capacity ∧ g'.cancelled = g.cancelled := by
  rw [ask_eq] at h
  split at h
  · cases h
    exact ⟨rfl, rfl⟩
  · split at h
    all_goals cases h; exact ⟨rfl, rfl⟩

theorem Balanced.ask_waits (hb : g.Balanced asks held) (hr : asks id = some r)
    (h : g.ask id r = (g', none)) : g'.Balanced asks held := by
  rw [ask_eq] at h
  split at h
  · cases h
  · split at h
    · cases h
    · cases h
      exact hb.queued hr

/-- A call that is granted holds what it asked for, and `held` grows by just that. Together with
`Balanced.ask_waits` and `Balanced.ask_refused` this is all that `Gate.ask` can do to the balance.
-/
theorem Balanced.ask_granted (hb : g.Balanced asks held) (hr : asks id = some r)
    (h : g.ask id r = (g', some (.ok ()))) :
    g'.Balanced (Function.update asks id none) (held + r.need g.capacity.count) := by
  rw [ask_eq] at h
  split at h
  · cases h
  · split at h
    · rename_i hgranted
      cases h
      exact (hb.queued hr).collected hr hgranted
    · cases h

/-- A call that has something to do, and goes on waiting, has just joined the line. This bounds the
steps of a waiting call: it is ready once more, and then only when it is granted. -/
theorem claims_of_ask_waits (hready : g.isReady id = true) (h : g.ask id r = (g', none)) :
    g.permits.claims id = false ∧ g'.permits.claims id = true := by
  rw [ask_eq] at h
  split at h
  · cases h
  · rename_i hopen
    split at h
    · cases h
    · rename_i hwaits
      cases h
      rw [queued] at hwaits ⊢
      cases hclaims : g.permits.claims id with
      | false =>
        refine ⟨rfl, ?_⟩
        have hperm := Permits.demands_join g.permits id (r.need g.capacity.count)
        rw [if_neg (by simp), Permits.claims_eq_any_demands, hperm.any_eq]
        simp
      | true =>
        -- A call in the line can go on only if the gate is cancelled or its claim is full.
        have hgranted : g.permits.isGranted id = false := by simpa [hclaims] using hwaits
        simp [isReady, hclaims, hopen, hgranted] at hready

/-- A call fails only by a cancellation, and then with the `point` of its own request. -/
theorem ask_error {e : ExecutionError} (h : g.ask id r = (g', some (.error e))) :
    g.cancelled = true ∧ g' = g.leave id ∧ e = .cancelled r.point := by
  rw [ask_eq] at h
  split at h
  · rename_i hcancelled
    cases h
    exact ⟨hcancelled, rfl, rfl⟩
  · split at h
    all_goals cases h

theorem Balanced.ask_refused (hb : g.Balanced asks held) {e : ExecutionError}
    (h : g.ask id r = (g', some (.error e))) :
    g'.Balanced (Function.update asks id none) held := by
  obtain ⟨-, rfl, -⟩ := ask_error h
  exact hb.leave id

end

/-! ## A gate with one caller

The engine has one caller, its producer: its line is empty, or it is the one claim of that call. -/

section

variable {held : Nat}

theorem Balanced.nobody {g : Gate ι} (h : g.Balanced (fun _ => none) held) :
    g.permits.waiting = [] ∧ g.permits.granted = [] := by
  have hdemands : g.permits.demands = [] := by
    refine List.eq_nil_iff_forall_not_mem.mpr fun d hd => ?_
    obtain ⟨r, hr, -⟩ := h.asked d hd
    cases hr
  simpa [Permits.demands] using hdemands

theorem Balanced.outstanding_of_nobody {g : Gate ι} (h : g.Balanced (fun _ => none) held) :
    g.outstanding = held := by
  obtain ⟨hwaiting, hgranted⟩ := h.nobody
  rw [h.outstanding_eq, hwaiting, hgranted]
  exact Nat.zero_add _

/-- How the line stands in which one call asks for `need` tickets: nobody stands in it, or that call
alone, with its claim lacking something or granted. This is all there is at the gate of an engine,
whose producer makes one call at a time. -/
inductive Line (p : Permits Unit) (need : Nat) : Prop
  | empty (waiting : p.waiting = []) (granted : p.granted = [])
  | lacking {c : PermitClaim Unit} (waiting : p.waiting = [c]) (granted : p.granted = [])
      (got : c.got < need) (free : p.free = 0)
  | granted {c : PermitClaim Unit} (waiting : p.waiting = []) (granted : p.granted = [c])
      (got : c.got = need)

variable {g : Gate Unit} {r : GateRequest}

theorem Balanced.line (h : g.Balanced (fun _ => some r) held) :
    Line g.permits (r.need g.capacity.count) := by
  have hneed (c : PermitClaim Unit) (hc : c ∈ g.permits.waiting ++ g.permits.granted) :
      c.need = r.need g.capacity.count := by
    obtain ⟨r', hr, hneed⟩ := h.asked c.demand (List.mem_map_of_mem hc)
    cases hr
    exact hneed
  -- Nobody is in the line twice, and there is only one.
  have hlength : (g.permits.waiting ++ g.permits.granted).length ≤ 1 := by
    have hcard := h.nodup.length_le_card
    simpa [Permits.demands] using hcard
  cases hwaiting : g.permits.waiting with
  | nil =>
    cases hgranted : g.permits.granted with
    | nil => exact .empty hwaiting hgranted
    | cons c cs =>
      rw [hwaiting, hgranted] at hlength hneed
      obtain rfl : cs = [] := List.length_eq_zero_iff.mp (by simpa using hlength)
      have hfull := h.sound.full c (by rw [hgranted]; exact List.mem_cons_self)
      exact .granted hwaiting hgranted (hfull.trans (hneed c (by simp)))
  | cons c cs =>
    rw [hwaiting] at hlength hneed
    have hrest : cs.length + g.permits.granted.length = 0 := by simpa using hlength
    obtain rfl : cs = [] := List.length_eq_zero_iff.mp (by omega)
    have hlacks := h.sound.lacking c (by rw [hwaiting]; exact List.mem_cons_self)
    have hfree := h.sound.none_free (by rw [hwaiting]; simp)
    refine .lacking hwaiting (List.length_eq_zero_iff.mp (by omega)) ?_ hfree
    rw [← hneed c (by simp)]
    exact hlacks

theorem gathered_eq (p : Permits Unit) :
    p.gathered () = gatheredBy p.waiting + gatheredBy p.granted := by
  have hall : (p.waiting ++ p.granted).filter (·.id == ()) = p.waiting ++ p.granted :=
    List.filter_eq_self.mpr fun _ _ => rfl
  rw [Permits.gathered, hall, ← gatheredBy_append]
  rfl

theorem Line.gathered_le {p : Permits Unit} {need : Nat} (h : Line p need) :
    p.gathered () ≤ need := by
  rw [gathered_eq]
  cases h with
  | empty waiting granted => simp [waiting, granted]
  | lacking waiting granted got =>
    simp only [waiting, granted, gatheredBy_cons, gatheredBy_nil]
    omega
  | granted waiting granted got =>
    simp only [waiting, granted, gatheredBy_cons, gatheredBy_nil]
    omega

/-- If the gate has all that the one caller asks for, free or gathered by it, the call answers. This
is where a drain is seen to end. -/
theorem Line.granted_of_enough (h : Line g.permits (r.need g.capacity.count))
    (hopen : g.cancelled = false) (henough : r.need g.capacity.count ≤ g.permits.total) :
    g.isReady () = true ∧ ∃ g', g.ask () r = (g', some (.ok ())) := by
  have hask (hgranted : (g.queued () r).permits.isGranted () = true) :
      ∃ g', g.ask () r = (g', some (.ok ())) := by
    rw [ask_eq, if_neg (by simp [hopen]), if_pos hgranted]
    exact ⟨_, rfl⟩
  cases h with
  | empty waiting granted =>
    have hclaims : g.permits.claims () = false := by simp [Permits.claims, waiting, granted]
    have hfree : r.need g.capacity.count ≤ g.permits.free := by
      simpa [Permits.total, waiting, granted] using henough
    refine ⟨by simp [isReady, hclaims], hask ?_⟩
    simp [queued, hclaims, Permits.join, Permits.release, Permits.isGranted, waiting, granted,
      deal, PermitClaim.missing, PermitClaim.full, hfree]
  | @lacking c waiting granted got free =>
    have htotal : g.permits.total = c.got := by simp [Permits.total, waiting, granted, free]
    omega
  | @granted c waiting granted got =>
    have hgranted : g.permits.isGranted () = true := by simp [Permits.isGranted, granted]
    have hclaims : g.permits.claims () = true := by simp [Permits.claims, granted]
    refine ⟨by simp [isReady, hgranted], hask ?_⟩
    simp [queued, hclaims, hgranted]

end

end Gate

end WorkBundle
