import WorkBundle.Gate.Calls
import WorkBundle.Proofs.Gate
import Mathlib.Algebra.GroupWithZero.Nat
import Mathlib.Data.List.Perm.Subperm

/-!
# Conservation of tickets among many calls

Any number of calls can stand at one gate, for one ticket or for all. Whatever happens there — a
call begins, is asked, is given up, a holder gives back, the token is cancelled, in any order — the
tickets stay the same ones: those that are free, those that waiting calls have gathered and those
that are held make up the capacity (`GateCalls.Sound`).

An event is finer than a step of the table (`GateEvent`): between two moves a single call may be
asked, or none. Batches of moves with all their asking are sequences of events (`step_after`).
-/

set_option autoImplicit false

namespace WorkBundle

/-- What can happen at the gate: a move from outside, or one waiting call is asked. This is finer
than a step of the table, in which every waiting call is asked after each batch, so what holds of
all sequences of events holds of all interleavings. -/
inductive GateEvent where
  | move (m : GateMove)
  | ask (serial : Nat)
  deriving DecidableEq, Repr

namespace GateCalls

/-- One event, with what it tells. Nobody can ask a call that does not wait, so such an event
changes nothing. -/
def happen (s : GateCalls) : GateEvent → GateCalls × List GateNote
  | .move m => s.move m
  | .ask serial =>
    match s.waiting.find? (·.serial == serial) with
    | some c => s.askOne c
    | none => (s, [])

def after (s : GateCalls) (events : List GateEvent) : GateCalls :=
  events.foldl (fun s e => (s.happen e).1) s

theorem after_append (s : GateCalls) (es fs : List GateEvent) :
    s.after (es ++ fs) = (s.after es).after fs := List.foldl_append

/-! ## What is counted -/

def tickets (s : GateCalls) : Nat := s.holding.countP (·.request == .ticket)

def drains (s : GateCalls) : Nat := s.holding.countP (·.request == .everything)

/-- What the waiting calls have gathered together, told from the calls. That nobody else gathers
anything is `Sound.gathering_eq`. -/
def gathering (s : GateCalls) : Nat :=
  (s.waiting.map fun c => s.gate.permits.gathered c.serial).sum

/-- The tickets of a list of calls that were granted. By `worth_eq` a drained gate is worth the
whole capacity, and a ticket one. -/
def worth (capacity : Nat) (cs : List GateCall) : Nat :=
  (cs.map fun c => c.request.need capacity).sum

def held (s : GateCalls) : Nat := worth s.gate.capacity.count s.holding

def asks (s : GateCalls) (serial : Nat) : Option GateRequest :=
  (s.waiting.find? (·.serial == serial)).map (·.request)

@[simp] theorem worth_nil (n : Nat) : worth n [] = 0 := rfl

@[simp] theorem worth_cons (n : Nat) (c : GateCall) (cs : List GateCall) :
    worth n (c :: cs) = c.request.need n + worth n cs := List.sum_cons

@[simp] theorem worth_append (n : Nat) (cs ds : List GateCall) :
    worth n (cs ++ ds) = worth n cs + worth n ds := by simp [worth]

theorem worth_perm {n : Nat} {cs ds : List GateCall} (h : cs.Perm ds) : worth n cs = worth n ds :=
  (h.map _).sum_nat

theorem worth_eq (n : Nat) (cs : List GateCall) :
    worth n cs = cs.countP (·.request == .ticket) + n * cs.countP (·.request == .everything) := by
  induction cs with
  | nil => rfl
  | cons c cs ih =>
    rw [worth_cons, ih]
    cases hr : c.request with
    | ticket =>
      simp only [List.countP_cons, hr, GateRequest.need]
      simp
      omega
    | everything =>
      simp only [List.countP_cons, hr, GateRequest.need]
      simp [Nat.mul_add]
      omega

/-! ## The invariant -/

/-- The table and the gate agree: every ticket is accounted for (`Gate.Balanced`), and no two calls
share a number, which is what makes a serial number lead to one call. -/
structure Sound (s : GateCalls) : Prop where
  balanced : s.gate.Balanced s.asks s.held
  numbered : ((s.waiting ++ s.holding).map (·.serial)).Nodup
  old : ∀ c ∈ s.waiting ++ s.holding, c.serial < s.nextSerial

theorem perm_cons_filter {cs : List GateCall} (hn : (cs.map (·.serial)).Nodup) {c : GateCall}
    (hc : c ∈ cs) : cs.Perm (c :: cs.filter (·.serial != c.serial)) := by
  have hsplit := List.filter_append_perm (·.serial == c.serial) cs
  rw [filter_eq_singleton_of_nodup (·.serial) hn hc] at hsplit
  exact hsplit.symm

theorem asks_filter (s t : GateCalls) (serial : Nat)
    (h : t.waiting = s.waiting.filter (·.serial != serial)) :
    t.asks = Function.update s.asks serial none := by
  funext n
  rw [asks, h, List.find?_filter]
  by_cases hn : n = serial
  · rw [hn, Function.update_self, Option.map_eq_none_iff, List.find?_eq_none]
    intro c _
    simp
  · rw [Function.update_of_ne hn, asks]
    congr 2
    funext c
    by_cases hc : c.serial = n
    · simp [hc, hn]
    · simp [hc]

/-- What each move does to the table, one constructor for each way a `GateMove` can come out.
`moved` says that there are no others. -/
inductive Moved (s : GateCalls) : GateMove → GateCalls → List GateNote → Prop
  | requested (name : String) (r : GateRequest) :
      Moved s (.request name r)
        { s with
          waiting := s.waiting ++ [⟨s.nextSerial, name, r⟩]
          nextSerial := s.nextSerial + 1 } []
  | released {name : String} {c : GateCall} (h : s.holding.find? (·.name == name) = some c) :
      Moved s (.release name)
        { s with
          gate := s.gate.release (c.request.need s.gate.capacity.count)
          holding := s.holding.filter (·.serial != c.serial) } []
  | abandoned {name : String} {c : GateCall} (h : s.waiting.find? (·.name == name) = some c) :
      Moved s (.abandon name)
        { s with
          gate := s.gate.leave c.serial
          waiting := s.waiting.filter (·.serial != c.serial) } []
  | cancelled : Moved s .cancel { s with gate := s.gate.cancel } []
  | notHeld {name : String} (h : s.holding.find? (·.name == name) = none) :
      Moved s (.release name) s [.notHeld]
  | notWaiting {name : String} (h : s.waiting.find? (·.name == name) = none) :
      Moved s (.abandon name) s [.notWaiting]
  | looked : Moved s .look s []

theorem moved (s : GateCalls) (m : GateMove) : Moved s m (s.move m).1 (s.move m).2 := by
  cases m with
  | request name r => exact .requested name r
  | release name =>
    cases hfind : s.holding.find? (·.name == name) with
    | some c => simpa only [move, hfind] using .released hfind
    | none => simpa only [move, hfind] using .notHeld hfind
  | abandon name =>
    cases hfind : s.waiting.find? (·.name == name) with
    | some c => simpa only [move, hfind] using .abandoned hfind
    | none => simpa only [move, hfind] using .notWaiting hfind
  | cancel => exact .cancelled
  | look => exact .looked

namespace Sound

variable {s t : GateCalls}

theorem new (capacity : Parallelism) : Sound (.new (.new capacity)) where
  balanced := Gate.Balanced.new capacity _
  numbered := List.nodup_nil
  old := fun c hc => absurd hc (by simp [GateCalls.new])

/-- Where no call is new, only the tickets are to be counted. Releases, failures and calls that are
given up are of this kind. -/
theorem of_subperm (h : s.Sound)
    (hcalls : (t.waiting ++ t.holding).Subperm (s.waiting ++ s.holding))
    (hserial : t.nextSerial = s.nextSerial) (hb : t.gate.Balanced t.asks t.held) : t.Sound where
  balanced := hb
  numbered := by
    obtain ⟨l, hperm, hsub⟩ := hcalls
    exact (hperm.map _).nodup_iff.mp (h.numbered.sublist (hsub.map _))
  old := fun c hc => hserial ▸ h.old c (hcalls.subset hc)

theorem waiting_nodup (h : s.Sound) : (s.waiting.map (·.serial)).Nodup :=
  h.numbered.sublist ((List.sublist_append_left _ _).map _)

theorem holding_nodup (h : s.Sound) : (s.holding.map (·.serial)).Nodup :=
  h.numbered.sublist ((List.sublist_append_right _ _).map _)

theorem find?_eq (h : s.Sound) {c : GateCall} (hc : c ∈ s.waiting) :
    s.waiting.find? (·.serial == c.serial) = some c := by
  rw [← List.head?_filter, filter_eq_singleton_of_nodup (·.serial) h.waiting_nodup hc]
  rfl

theorem asks_eq (h : s.Sound) {c : GateCall} (hc : c ∈ s.waiting) :
    s.asks c.serial = some c.request := by
  rw [asks, h.find?_eq hc]
  rfl

/-! ### A move -/

theorem request (h : s.Sound) (name : String) (r : GateRequest) :
    Sound { s with
      waiting := s.waiting ++ [⟨s.nextSerial, name, r⟩]
      nextSerial := s.nextSerial + 1 } := by
  have hnew : ∀ c ∈ s.waiting ++ s.holding, c.serial ≠ s.nextSerial := fun c hc =>
    Nat.ne_of_lt (h.old c hc)
  have hperm : (s.waiting ++ [GateCall.mk s.nextSerial name r] ++ s.holding).Perm
      (GateCall.mk s.nextSerial name r :: (s.waiting ++ s.holding)) := by
    rw [List.append_assoc]
    exact List.perm_middle
  refine ⟨h.balanced.mono fun n r' hn => ?_, ?_, fun c hc => ?_⟩
  · obtain ⟨c, hc, hr⟩ := Option.map_eq_some_iff.mp hn
    show ((s.waiting ++ _).find? _).map _ = _
    rw [List.find?_append, hc]
    exact congrArg some hr
  · refine (hperm.map _).nodup_iff.mpr (List.nodup_cons.mpr ⟨?_, h.numbered⟩)
    intro hmem
    obtain ⟨c, hc, hserial⟩ := List.mem_map.mp hmem
    exact hnew c hc hserial
  · show c.serial < s.nextSerial + 1
    rcases List.mem_cons.mp (hperm.mem_iff.mp hc) with rfl | hc
    · exact Nat.lt_succ_self _
    · exact Nat.lt_succ_of_lt (h.old c hc)

theorem release (h : s.Sound) {c : GateCall} (hc : c ∈ s.holding) :
    Sound { s with
      gate := s.gate.release (c.request.need s.gate.capacity.count)
      holding := s.holding.filter (·.serial != c.serial) } := by
  have hperm := perm_cons_filter h.holding_nodup hc
  refine h.of_subperm ?_ rfl ?_
  · exact List.Sublist.subperm (List.filter_sublist.append_left _)
  · refine Gate.Balanced.release ?_
    have hheld : s.held =
        worth s.gate.capacity.count (s.holding.filter (·.serial != c.serial)) +
          c.request.need s.gate.capacity.count := by
      rw [held, worth_perm hperm, worth_cons, Nat.add_comm]
    have hb := h.balanced
    rw [hheld] at hb
    exact hb

theorem abandon (h : s.Sound) (serial : Nat) :
    Sound { s with
      gate := s.gate.leave serial
      waiting := s.waiting.filter (·.serial != serial) } := by
  refine h.of_subperm ?_ rfl ?_
  · exact List.Sublist.subperm (List.filter_sublist.append_right _)
  · rw [asks_filter s _ serial rfl]
    exact h.balanced.leave serial

theorem moved {m : GateMove} {notes : List GateNote} (h : s.Sound) (hm : Moved s m t notes) :
    t.Sound := by
  cases hm with
  | requested name r => exact h.request name r
  | released hfind => exact h.release (List.mem_of_find?_eq_some hfind)
  | abandoned hfind => exact h.abandon _
  | cancelled => exact ⟨h.balanced.cancel, h.numbered, h.old⟩
  | notHeld | notWaiting | looked => exact h

end Sound

/-! ### A call is asked -/

/-- The three ways in which a call that is asked can answer, with what becomes of the table: it
waits, it succeeds and is a holder from now on, or it fails and is gone. -/
inductive Asked (s : GateCalls) (c : GateCall) : GateCalls → List GateNote → Prop
  | waits {gate : Gate Nat} (h : s.gate.ask c.serial c.request = (gate, none)) :
      Asked s c { s with gate } []
  | granted {gate : Gate Nat} (h : s.gate.ask c.serial c.request = (gate, some (.ok ()))) :
      Asked s c
        { s with
          gate
          waiting := s.waiting.filter (·.serial != c.serial)
          holding := s.holding ++ [c] }
        [.granted c.name]
  | failed {gate : Gate Nat} {e : ExecutionError}
      (h : s.gate.ask c.serial c.request = (gate, some (.error e))) :
      Asked s c { s with gate, waiting := s.waiting.filter (·.serial != c.serial) }
        [.failed c.name e]

theorem asked (s : GateCalls) (c : GateCall) : Asked s c (s.askOne c).1 (s.askOne c).2 := by
  unfold askOne
  split
  · rename_i hask
    exact .waits hask
  · rename_i answer hask
    cases answer with
    | ok _ => exact .granted hask
    | error e => exact .failed hask

namespace Sound

variable {s t : GateCalls} {notes : List GateNote}

theorem asked {c : GateCall} (h : s.Sound) (hc : c ∈ s.waiting) (ha : Asked s c t notes) :
    t.Sound := by
  have hasks := h.asks_eq hc
  cases ha with
  | waits hask =>
    refine h.of_subperm (List.Subperm.refl _) rfl ?_
    have hb := h.balanced.ask_waits hasks hask
    rw [held, (Gate.ask_frame hask).1]
    exact hb
  | granted hask =>
    refine h.of_subperm ?_ rfl ?_
    · have hperm := (perm_cons_filter h.waiting_nodup hc).append_right s.holding
      refine List.Perm.subperm (List.Perm.trans ?_ hperm.symm)
      rw [← List.append_assoc]
      exact List.perm_append_comm
    · have hb := h.balanced.ask_granted hasks hask
      rw [asks_filter s _ c.serial rfl, held, (Gate.ask_frame hask).1, worth_append, worth_cons,
        worth_nil]
      exact hb
  | failed hask =>
    refine h.of_subperm (List.Sublist.subperm (List.filter_sublist.append_right _)) rfl ?_
    have hb := h.balanced.ask_refused hask
    rw [asks_filter s _ c.serial rfl, held, (Gate.ask_frame hask).1]
    exact hb

end Sound

/-! ## Events -/

inductive Happened (s : GateCalls) : GateEvent → GateCalls → List GateNote → Prop
  | moved {m : GateMove} {t : GateCalls} {notes : List GateNote} (h : Moved s m t notes) :
      Happened s (.move m) t notes
  | asked {c : GateCall} {t : GateCalls} {notes : List GateNote} (hc : c ∈ s.waiting)
      (h : Asked s c t notes) : Happened s (.ask c.serial) t notes
  | nothing {serial : Nat} : Happened s (.ask serial) s []

theorem happened (s : GateCalls) (e : GateEvent) : Happened s e (s.happen e).1 (s.happen e).2 := by
  cases e with
  | move m => exact .moved (s.moved m)
  | ask serial =>
    cases hfind : s.waiting.find? (·.serial == serial) with
    | none => simpa only [happen, hfind] using .nothing
    | some c =>
      obtain rfl : c.serial = serial := by simpa using List.find?_some hfind
      simpa only [happen, hfind] using .asked (List.mem_of_find?_eq_some hfind) (s.asked c)

namespace Sound

variable {s : GateCalls}

theorem happened {e : GateEvent} {t : GateCalls} {notes : List GateNote} (h : s.Sound)
    (he : Happened s e t notes) : t.Sound := by
  cases he with
  | moved hm => exact h.moved hm
  | asked hc ha => exact h.asked hc ha
  | nothing => exact h

theorem after (h : s.Sound) (events : List GateEvent) : (s.after events).Sound := by
  induction events generalizing s with
  | nil => exact h
  | cons e events ih => exact ih (h.happened (s.happened e))

end Sound

theorem Asked.frame {s t : GateCalls} {c : GateCall} {notes : List GateNote}
    (h : Asked s c t notes) :
    t.gate.capacity = s.gate.capacity ∧ t.gate.cancelled = s.gate.cancelled := by
  cases h with
  | waits hask => exact Gate.ask_frame hask
  | granted hask => exact Gate.ask_frame hask
  | failed hask => exact Gate.ask_frame hask

theorem Asked.nextSerial_eq {s t : GateCalls} {c : GateCall} {notes : List GateNote}
    (h : Asked s c t notes) : t.nextSerial = s.nextSerial := by
  cases h <;> rfl

theorem Happened.capacity_eq {s t : GateCalls} {e : GateEvent} {notes : List GateNote}
    (h : Happened s e t notes) : t.gate.capacity = s.gate.capacity := by
  cases h with
  | moved hm => cases hm <;> rfl
  | asked _ ha => exact ha.frame.1
  | nothing => rfl

theorem after_capacity (s : GateCalls) (events : List GateEvent) :
    (s.after events).gate.capacity = s.gate.capacity := by
  induction events generalizing s with
  | nil => rfl
  | cons e events ih => exact (ih _).trans (s.happened e).capacity_eq

/-! ## The executed steps are events -/

/-- Asks the calls of a list, each once. A round of asking is this with all calls that wait
(`askRound_eq`), and the induction over a round is over the list. -/
def askThese (s : GateCalls) (cs : List GateCall) : GateCalls × List GateNote :=
  cs.foldl (fun (s, notes) c => let (s, more) := s.askOne c; (s, notes ++ more)) (s, [])

theorem askRound_eq (s : GateCalls) : s.askRound = s.askThese s.waiting := rfl

private theorem foldl_notes {β : Type} (f : GateCalls → β → GateCalls × List GateNote)
    (bs : List β) (s : GateCalls) (notes : List GateNote) :
    bs.foldl (fun (s, notes) b => let (s, more) := f s b; (s, notes ++ more)) (s, notes) =
      let r := bs.foldl (fun (s, notes) b => let (s, more) := f s b; (s, notes ++ more)) (s, [])
      (r.1, notes ++ r.2) := by
  induction bs generalizing s notes with
  | nil => simp
  | cons b bs ih =>
    simp only [List.foldl_cons, List.nil_append]
    rw [ih (f s b).1 (notes ++ (f s b).2), ih (f s b).1 (f s b).2]
    simp only [List.append_assoc]

@[simp] theorem moves_nil (s : GateCalls) : s.moves [] = (s, []) := rfl

theorem moves_cons (s : GateCalls) (m : GateMove) (ms : List GateMove) :
    s.moves (m :: ms) =
      (((s.move m).1.moves ms).1, (s.move m).2 ++ ((s.move m).1.moves ms).2) :=
  foldl_notes move ms (s.move m).1 (s.move m).2

@[simp] theorem askThese_nil (s : GateCalls) : s.askThese [] = (s, []) := rfl

theorem askThese_cons (s : GateCalls) (c : GateCall) (cs : List GateCall) :
    s.askThese (c :: cs) =
      (((s.askOne c).1.askThese cs).1, (s.askOne c).2 ++ ((s.askOne c).1.askThese cs).2) :=
  foldl_notes askOne cs (s.askOne c).1 (s.askOne c).2

theorem askThese_nextSerial (s : GateCalls) (cs : List GateCall) :
    (s.askThese cs).1.nextSerial = s.nextSerial := by
  induction cs generalizing s with
  | nil => rfl
  | cons c cs ih =>
    rw [askThese_cons]
    exact (ih _).trans (s.asked c).nextSerial_eq

theorem moves_after (s : GateCalls) (batch : List GateMove) :
    (s.moves batch).1 = s.after (batch.map .move) := by
  induction batch generalizing s with
  | nil => rfl
  | cons m ms ih =>
    rw [moves_cons]
    exact ih _

theorem Asked.still_waits {s t : GateCalls} {c d : GateCall} {notes : List GateNote}
    (h : Asked s c t notes) (hd : d ∈ s.waiting) (hne : d.serial ≠ c.serial) : d ∈ t.waiting := by
  have hfilter : d ∈ s.waiting.filter (·.serial != c.serial) :=
    List.mem_filter.mpr ⟨hd, by simpa using hne⟩
  cases h with
  | waits => exact hd
  | granted => exact hfilter
  | failed => exact hfilter

theorem Sound.askThese_after {s : GateCalls} (h : s.Sound) {cs : List GateCall}
    (hn : (cs.map (·.serial)).Nodup) (hcs : ∀ c ∈ cs, c ∈ s.waiting) :
    (s.askThese cs).1 = s.after (cs.map (.ask ·.serial)) := by
  induction cs generalizing s with
  | nil => rfl
  | cons c cs ih =>
    obtain ⟨hnew, hn⟩ := List.nodup_cons.mp hn
    have hc := hcs c List.mem_cons_self
    have hask : s.happen (.ask c.serial) = s.askOne c := by simp only [happen, h.find?_eq hc]
    have hrest : ∀ d ∈ cs, d ∈ (s.askOne c).1.waiting := fun d hd =>
      (s.asked c).still_waits (hcs d (List.mem_cons_of_mem _ hd))
        fun heq => hnew (List.mem_map.mpr ⟨d, hd, heq⟩)
    rw [askThese_cons, ih (h.asked hc (s.asked c)) hn hrest, ← hask]
    rfl

theorem Sound.askRounds_after {s : GateCalls} (h : s.Sound) (n : Nat) :
    ∃ events, (askRounds n s).1 = s.after events := by
  induction n generalizing s with
  | zero => exact ⟨[], rfl⟩
  | succ n ih =>
    have hround := h.askThese_after h.waiting_nodup fun c hc => hc
    rw [← askRound_eq] at hround
    unfold askRounds
    split
    · rename_i hr
      exact ⟨_, (congrArg Prod.fst hr).symm.trans hround⟩
    · rename_i t notes hne hr
      obtain rfl : t = s.after _ := (congrArg Prod.fst hr).symm.trans hround
      obtain ⟨events, hevents⟩ := ih (h.after (s.waiting.map (.ask ·.serial)))
      refine ⟨s.waiting.map (.ask ·.serial) ++ events, ?_⟩
      rw [after_append]
      exact hevents

/-- A batch of moves, with all the asking that follows it, is a sequence of events. So the steps by
which a gate is driven from outside need no theory of their own. -/
theorem Sound.step_after {s : GateCalls} (h : s.Sound) (batch : List GateMove) :
    ∃ events, (s.step batch).1 = s.after events := by
  obtain ⟨events, hevents⟩ := (h.after (batch.map .move)).askRounds_after
    ((s.after (batch.map .move)).waiting.length + 1)
  refine ⟨batch.map .move ++ events, ?_⟩
  rw [after_append, ← hevents, ← moves_after]
  rfl

theorem Sound.step {s : GateCalls} (h : s.Sound) (batch : List GateMove) :
    (s.step batch).1.Sound := by
  obtain ⟨events, hevents⟩ := h.step_after batch
  rw [hevents]
  exact h.after events

/-! ## Conservation -/

theorem sum_gatheredBy {ι : Type} [DecidableEq ι] {ids : List ι} {cs : List (PermitClaim ι)}
    (hn : ids.Nodup) (hall : ∀ c ∈ cs, c.id ∈ ids) :
    (ids.map fun i => gatheredBy (cs.filter (·.id == i))).sum = gatheredBy cs := by
  induction ids generalizing cs with
  | nil =>
    obtain rfl : cs = [] := List.eq_nil_iff_forall_not_mem.mpr fun c hc => by simpa using hall c hc
    rfl
  | cons i ids ih =>
    obtain ⟨hi, hn⟩ := List.nodup_cons.mp hn
    -- The others gather what they do in the line without `i`.
    have hrest (j : ι) (hj : j ∈ ids) :
        cs.filter (·.id == j) = (cs.filter (!·.id == i)).filter (·.id == j) := by
      rw [List.filter_filter]
      refine List.filter_congr fun c _ => ?_
      have hne : j ≠ i := fun h => hi (h ▸ hj)
      by_cases hc : c.id = j
      · simp [hc, hne]
      · simp [hc]
    have hothers : ∀ c ∈ cs.filter (!·.id == i), c.id ∈ ids := by
      intro c hc
      obtain ⟨hc, hne⟩ := List.mem_filter.mp hc
      exact (List.mem_cons.mp (hall c hc)).resolve_left (by simpa using hne)
    have hsum : (ids.map fun j => gatheredBy (cs.filter (·.id == j))).sum =
        gatheredBy (cs.filter (!·.id == i)) := by
      rw [← ih hn hothers]
      exact congrArg List.sum (List.map_congr_left fun j hj => by rw [← hrest j hj])
    rw [List.map_cons, List.sum_cons, hsum]
    exact gatheredBy_filter (·.id == i) cs

/-- What the waiting calls gather is all that the line gathers: nobody else stands in it. -/
theorem Sound.gathering_eq {s : GateCalls} (h : s.Sound) :
    s.gathering = gatheredBy s.gate.permits.waiting + gatheredBy s.gate.permits.granted := by
  have hids : ∀ c ∈ s.gate.permits.waiting ++ s.gate.permits.granted,
      c.id ∈ s.waiting.map (·.serial) := by
    intro c hc
    obtain ⟨r, hr, -⟩ := h.balanced.asked c.demand (List.mem_map_of_mem hc)
    obtain ⟨d, hd, -⟩ := Option.map_eq_some_iff.mp hr
    have hserial : d.serial = c.id := by simpa [PermitClaim.demand] using List.find?_some hd
    exact List.mem_map.mpr ⟨d, List.mem_of_find?_eq_some hd, hserial⟩
  rw [← gatheredBy_append, ← sum_gatheredBy h.waiting_nodup hids, List.map_map]
  rfl

theorem held_eq (s : GateCalls) :
    s.held = s.tickets + s.gate.capacity.count * s.drains := worth_eq _ _

theorem Sound.conserved {s : GateCalls} (h : s.Sound) :
    s.held + s.gathering + s.gate.permits.free = s.gate.capacity.count := by
  have hb := h.balanced.balance
  have hg := h.gathering_eq
  simp only [Permits.total] at hb
  omega

theorem Sound.outstanding_eq {s : GateCalls} (h : s.Sound) :
    s.gate.outstanding = s.held + s.gathering := by
  have ho := h.balanced.outstanding_eq
  have hg := h.gathering_eq
  omega

/-- A drained gate leaves no ticket for anybody else: it is alone, and nobody gathers anything. -/
theorem Sound.drained {s : GateCalls} (h : s.Sound) (hd : 0 < s.drains) :
    s.drains = 1 ∧ s.tickets = 0 ∧ s.gathering = 0 ∧ s.gate.permits.free = 0 := by
  have hc := h.conserved
  rw [held_eq] at hc
  have hone := s.gate.capacity.one_le
  obtain ⟨k, hk⟩ : ∃ k, s.drains = k + 1 := ⟨s.drains - 1, by omega⟩
  rw [hk, Nat.mul_add, Nat.mul_one] at hc
  have hzero : s.gate.capacity.count * k = 0 := by omega
  have hk0 : k = 0 := by
    rcases Nat.mul_eq_zero.mp hzero with h0 | h0
    · omega
    · exact h0
  subst hk0
  omega

/-- While a drained gate is held, no call succeeds, whatever is asked or given up; only its release
can change that. -/
theorem Sound.nobody_granted {s t : GateCalls} (h : s.Sound) (hd : 0 < s.drains) {e : GateEvent}
    {notes : List GateNote} (he : Happened s e t notes) (name : String) :
    GateNote.granted name ∉ notes := by
  obtain ⟨hone, htickets, -⟩ := h.drained hd
  cases he with
  | moved hm => cases hm <;> simp
  | nothing => simp
  | @asked c _ _ hc ha =>
    have ht := (h.asked hc ha).conserved
    cases ha with
    | waits => simp
    | failed => simp
    | granted hask =>
      -- The call would hold tickets beside those of the drained gate, more than there are.
      have hneed := c.request.need_pos s.gate.capacity
      have hheld : s.held = s.gate.capacity.count := by rw [held_eq, hone, htickets]; omega
      rw [held, (Gate.ask_frame hask).1, worth_append, worth_cons] at ht
      rw [held] at hheld
      omega

/-- **Conservation at the gate.** Whatever calls are made, asked, given up, released or cancelled,
and in whatever order: held, gathered and free tickets make up the capacity, and what is outstanding
is the first two. So no more tickets are held than there are; a drained gate is alone, without
another, without a ticket, and nothing is granted beside it; and once nothing is held and nothing
waits, nothing is outstanding. -/
theorem tickets_conserved (capacity : Parallelism) (events : List GateEvent) :
    let s := (new (.new capacity)).after events
    s.tickets + capacity.count * s.drains + s.gathering + s.gate.permits.free = capacity.count ∧
      s.gate.outstanding = s.tickets + capacity.count * s.drains + s.gathering ∧
      s.tickets ≤ capacity.count ∧
      s.drains ≤ 1 ∧
      (0 < s.drains → s.tickets = 0) ∧
      (0 < s.drains → ∀ e name, GateNote.granted name ∉ (s.happen e).2) ∧
      (s.holding = [] → s.waiting = [] → s.gate.outstanding = 0) := by
  intro s
  have h : s.Sound := (Sound.new capacity).after events
  have hcapacity : s.gate.capacity = capacity := after_capacity _ events
  have hc := h.conserved
  have ho := h.outstanding_eq
  rw [held_eq, hcapacity] at hc ho
  refine ⟨hc, ho, by omega, ?_, fun hd => (h.drained hd).2.1, ?_, ?_⟩
  · by_contra hd
    have hone := (h.drained (by omega)).1
    omega
  · exact fun hd e name => h.nobody_granted hd (s.happened e) name
  · intro hholding hwaiting
    have hheld : s.held = 0 := by rw [held, hholding, worth_nil]
    have hgathering : s.gathering = 0 := by rw [gathering, hwaiting]; rfl
    rw [h.outstanding_eq, hheld, hgathering]

/-- A drain has waited for the ticket of an early call, while a late call asks for one: now the gate
is the drain's, and nothing that happens next lets the late call pass. -/
theorem tickets_conserved_at_drain :
    let s := (new (.new .standard)).after
      [.move (.request "early" .ticket), .ask 0, .move (.request "drain" .everything), .ask 1,
        .move (.request "late" .ticket), .ask 2, .move (.release "early"), .ask 1]
    s.waiting = [⟨2, "late", .ticket⟩] ∧ 0 < s.drains ∧
      ∀ e name, GateNote.granted name ∉ (s.happen e).2 := by
  have hdrains : 0 < ((new (.new .standard)).after
      [.move (.request "early" .ticket), .ask 0, .move (.request "drain" .everything), .ask 1,
        .move (.request "late" .ticket), .ask 2, .move (.release "early"), .ask 1]).drains := by
    decide
  exact ⟨by decide, hdrains, (tickets_conserved _ _).2.2.2.2.2.1 hdrains⟩

end GateCalls

end WorkBundle
