import WorkBundle.Proofs.GateOrder

/-!
# A settled gate is told by its calls

When the waiting calls at a gate were asked until none answers, the gate is just what its holders
and its waiting calls, in their order, make of it: what nobody holds was gathered by the call at the
front, and is free only if there is none (`linedUp`). What happened before leaves no trace. So a
table settles as one where the same calls stand and none of them was asked yet
(`Reached.settle_afresh`), and a call that is given up, wherever it stands and whatever it has
gathered, leaves the gate as if it had not been in the line.

After a cancellation nobody waits, and nobody is granted anything any more.
-/

set_option autoImplicit false

namespace WorkBundle

namespace GateCalls

variable {s t : GateCalls}

/-! ## What the calls make of a gate -/

def spare (s : GateCalls) : Nat := s.gate.capacity.count - s.held

/-- The permits of a gate where so many tickets are held by nobody and these calls stand in the
line: the first has gathered them, and they are free if there is none. Nothing of the past enters,
which is what "leaves no trace" means. -/
def linedUp (capacity spare : Nat) : List GateCall → Permits Nat
  | [] => { free := spare }
  | c :: cs =>
    { free := 0
      waiting := ⟨c.serial, c.request.need capacity, spare⟩ ::
        cs.map fun d => ⟨d.serial, d.request.need capacity, 0⟩ }

/-- How many calls at the front of the line are served by so many tickets. The first that cannot be
served stops the rest, even if they would need less. -/
def served (capacity : Nat) : Nat → List GateCall → Nat
  | _, [] => 0
  | spare, c :: cs =>
    if c.request.need capacity ≤ spare then
      served capacity (spare - c.request.need capacity) cs + 1
    else 0

/-- The same calls, with the same tickets held, at a gate where nobody was asked yet. -/
def afresh (s : GateCalls) : GateCalls :=
  { s with gate := { s.gate with permits := { free := s.spare } } }

def grantNotes (cs : List GateCall) : List GateNote := cs.map (.granted ·.name)

def cancelNotes (cs : List GateCall) : List GateNote :=
  cs.map fun c => .failed c.name (.cancelled c.request.point)

def servedTable (s : GateCalls) : GateCalls :=
  let n := served s.gate.capacity.count s.spare s.waiting
  { s with
    gate := { s.gate with
      permits := linedUp s.gate.capacity.count
        (s.spare - worth s.gate.capacity.count (s.waiting.take n)) (s.waiting.drop n) }
    waiting := s.waiting.drop n
    holding := s.holding ++ s.waiting.take n }

def clearedTable (s : GateCalls) : GateCalls :=
  { s with gate := { s.gate with permits := { free := s.spare } }, waiting := [] }

/-- What settling comes to, told by the calls and by whether the gate is cancelled: nobody waits any
more (`clearedTable`), or the front is served (`servedTable`). -/
def settlement (s : GateCalls) : GateCalls × List GateNote :=
  if s.gate.cancelled then (s.clearedTable, cancelNotes s.waiting)
  else
    (s.servedTable, grantNotes (s.waiting.take (served s.gate.capacity.count s.spare s.waiting)))

theorem free_linedUp (capacity spare : Nat) (cs : List GateCall) :
    (linedUp capacity spare cs).free = if cs = [] then spare else 0 := by
  cases cs with
  | nil => simp [linedUp]
  | cons c cs => simp [linedUp]

theorem Sound.held_le (h : s.Sound) : s.held ≤ s.gate.capacity.count := by
  have hc := h.conserved
  omega

/-! ## The line of a settled table -/

theorem Sound.claim_need (h : s.Sound) {c : GateCall} (hc : c ∈ s.waiting)
    {e : PermitClaim Nat} (he : e ∈ s.gate.permits.waiting) (hid : e.id = c.serial) :
    e.need = c.request.need s.gate.capacity.count := by
  have hmem : e.demand ∈ s.gate.permits.demands := by
    apply List.mem_map_of_mem
    exact List.mem_append_left _ he
  obtain ⟨r, hr, hneed⟩ := h.balanced.asked _ hmem
  have hasks := h.asks_eq hc
  rw [← hid] at hasks
  have hr : r = c.request := Option.some.inj (hr.symm.trans hasks)
  rw [← hr]
  exact hneed

theorem claims_eq_map {capacity : Nat} {es : List (PermitClaim Nat)} {cs : List GateCall}
    (hids : es.map (·.id) = cs.map (·.serial)) (hgot : ∀ e ∈ es, e.got = 0)
    (hneed : ∀ e ∈ es, ∀ c ∈ cs, e.id = c.serial → e.need = c.request.need capacity) :
    es = cs.map fun d => ⟨d.serial, d.request.need capacity, 0⟩ := by
  induction es generalizing cs with
  | nil =>
    cases cs with
    | nil => rfl
    | cons c cs => simp at hids
  | cons e es ih =>
    cases cs with
    | nil => simp at hids
    | cons c cs =>
      simp only [List.map_cons, List.cons.injEq] at hids ⊢
      obtain ⟨hid, hids⟩ := hids
      constructor
      · have hn := hneed e List.mem_cons_self c List.mem_cons_self hid
        have hg := hgot e List.mem_cons_self
        cases e
        simp_all
      · apply ih hids
        · intro d hd
          exact hgot d (List.mem_cons_of_mem _ hd)
        · intro d hd b hb
          exact hneed d (List.mem_cons_of_mem _ hd) b (List.mem_cons_of_mem _ hb)

theorem Sound.permits_of_nobody (h : s.Sound) (hw : s.waiting = []) :
    s.gate.permits = { free := s.spare } := by
  have hasks : s.asks = fun _ => none := by
    funext n
    simp [asks, hw]
  have hb := h.balanced
  rw [hasks] at hb
  obtain ⟨hwaiting, hgranted⟩ := hb.nobody
  have hc := h.conserved
  have hg : s.gathering = 0 := by simp [gathering, hw]
  have hfree : s.gate.permits.free = s.spare := by
    rw [spare]
    omega
  cases hp : s.gate.permits
  simp_all

/-- The gate of a table where everybody was asked, and nobody was cancelled, is told by the calls
alone (`linedUp`). -/
theorem Asking.permits_eq (h : Asking s s.waiting []) :
    s.gate.permits = linedUp s.gate.capacity.count s.spare s.waiting := by
  cases hw : s.waiting with
  | nil => exact h.sound.permits_of_nobody hw
  | cons c cs =>
    have hline := h.line_eq
    have hgranted := h.granted_nil
    rw [Permits.line, hgranted, List.nil_append, hw] at hline
    cases hclaims : s.gate.permits.waiting with
    | nil => simp [hclaims] at hline
    | cons e es =>
      rw [hclaims] at hline
      simp only [List.map_cons, List.cons.injEq] at hline
      obtain ⟨hid, hids⟩ := hline
      have hothers : ∀ d ∈ es, d.got = 0 := by
        intro d hd
        apply h.first d
        rw [hclaims]
        exact hd
      -- All that nobody holds is with the first claim.
      have hfree := h.none_free (by simp [hw])
      have hc := h.sound.conserved
      rw [h.sound.gathering_eq, hgranted, hclaims, gatheredBy_cons, gatheredBy_eq_zero hothers,
        gatheredBy_nil, hfree] at hc
      have hgot : e.got = s.spare := by
        rw [spare]
        omega
      have hneed : e.need = c.request.need s.gate.capacity.count := by
        apply h.sound.claim_need (by simp [hw]) (by simp [hclaims]) hid
      have hrest : es = cs.map fun d => ⟨d.serial, d.request.need s.gate.capacity.count, 0⟩ := by
        apply claims_eq_map hids hothers
        intro d hd b hb
        exact h.sound.claim_need (by simp [hw, hb]) (by simp [hclaims, hd])
      cases hp : s.gate.permits
      cases e
      simp_all [linedUp]

theorem Asking.lacks (h : Asking s s.waiting []) {c : GateCall} {cs : List GateCall}
    (hw : s.waiting = c :: cs) : s.spare < c.request.need s.gate.capacity.count := by
  have hpermits := h.permits_eq
  rw [hw] at hpermits
  apply h.sound.balanced.sound.lacking ⟨c.serial, c.request.need s.gate.capacity.count, s.spare⟩
  simp [hpermits, linedUp]

/-! ## Settling -/

theorem askThese_frame (s : GateCalls) (cs : List GateCall) :
    (s.askThese cs).1.gate.capacity = s.gate.capacity ∧
      (s.askThese cs).1.gate.cancelled = s.gate.cancelled := by
  induction cs generalizing s with
  | nil => simp
  | cons c cs ih =>
    rw [askThese_cons]
    obtain ⟨hcapacity, hcancelled⟩ := (s.asked c).frame
    simpa [hcapacity, hcancelled] using ih (s.askOne c).1

theorem askRounds_frame (n : Nat) (s : GateCalls) :
    (askRounds n s).1.gate.capacity = s.gate.capacity ∧
      (askRounds n s).1.gate.cancelled = s.gate.cancelled ∧
      (askRounds n s).1.nextSerial = s.nextSerial := by
  induction n generalizing s with
  | zero => simp [askRounds]
  | succ n ih =>
    obtain ⟨hcapacity, hcancelled⟩ := s.askThese_frame s.waiting
    have hserial := s.askThese_nextSerial s.waiting
    rw [← askRound_eq] at hcapacity hcancelled hserial
    unfold askRounds
    split
    · rename_i t hround
      simp only [hround] at hcapacity hcancelled hserial
      exact ⟨hcapacity, hcancelled, hserial⟩
    · rename_i t notes _ hround
      simp only [hround] at hcapacity hcancelled hserial
      simpa [hcapacity, hcancelled, hserial] using ih t

theorem settle_frame (s : GateCalls) :
    s.settle.1.gate.capacity = s.gate.capacity ∧
      s.settle.1.gate.cancelled = s.gate.cancelled ∧ s.settle.1.nextSerial = s.nextSerial :=
  askRounds_frame _ s

theorem served_eq {capacity spare : Nat} {grants rest : List GateCall}
    (henough : worth capacity grants ≤ spare)
    (hlacks : ∀ c cs, rest = c :: cs →
      spare - worth capacity grants < c.request.need capacity) :
    served capacity spare (grants ++ rest) = grants.length := by
  induction grants generalizing spare with
  | nil =>
    cases rest with
    | nil => simp [served]
    | cons c cs =>
      have hc := hlacks c cs rfl
      simp only [worth_nil, Nat.sub_zero] at hc
      simp [served, Nat.not_le.mpr hc]
  | cons b bs ih =>
    rw [worth_cons] at henough
    have hb : b.request.need capacity ≤ spare := by omega
    rw [List.cons_append, served, if_pos hb, List.length_cons]
    congr 1
    apply ih
    · omega
    · intro c cs hrest
      have hc := hlacks c cs hrest
      rw [worth_cons] at hc
      omega

/-- While the gate is open, settling serves the calls at the front, and the gate is told by what
comes of that. -/
theorem Asking.settle_eq_served (h : Asking s [] s.waiting) :
    s.settle = (s.servedTable,
      grantNotes (s.waiting.take (served s.gate.capacity.count s.spare s.waiting))) := by
  obtain ⟨grants, hsplit, hend, hholding, hnotes⟩ := h.settle
  obtain ⟨hcapacity, hcancelled, hserial⟩ := s.settle_frame
  have hheld : s.settle.1.held = s.held + worth s.gate.capacity.count grants := by
    rw [held, hholding, hcapacity, worth_append, held]
  have hspare : s.settle.1.spare = s.spare - worth s.gate.capacity.count grants := by
    rw [spare, hheld, hcapacity, spare]
    omega
  have hcount : served s.gate.capacity.count s.spare s.waiting = grants.length := by
    rw [hsplit]
    apply served_eq
    · have hle := hend.sound.held_le
      rw [hheld, hcapacity] at hle
      rw [spare]
      omega
    · intro c cs hrest
      have hlacks := hend.lacks hrest
      rwa [hspare, hcapacity] at hlacks
  have htake : s.waiting.take grants.length = grants := by rw [hsplit]; simp
  have hdrop : s.waiting.drop grants.length = s.settle.1.waiting := by
    conv_lhs => rw [hsplit]
    simp
  have hpermits := hend.permits_eq
  rw [hspare, hcapacity] at hpermits
  apply Prod.ext
  · rcases hs : s.settle.1 with ⟨⟨capacity, permits, cancelled⟩, waiting, holding, nextSerial⟩
    simp_all [servedTable]
  · simp only [hcount, htake]
    exact hnotes

theorem askOne_cancelled (h : s.gate.cancelled = true) (c : GateCall) :
    s.askOne c =
      ({ s with
          gate := s.gate.leave c.serial
          waiting := s.waiting.filter (·.serial != c.serial) },
        [.failed c.name (.cancelled c.request.point)]) := by
  simp [askOne, Gate.ask, h]

theorem askThese_cancelled (h : s.gate.cancelled = true) (cs : List GateCall) :
    (s.askThese cs).1.waiting = s.waiting.filter (fun d => cs.all (·.serial != d.serial)) ∧
      (s.askThese cs).1.holding = s.holding ∧ (s.askThese cs).2 = cancelNotes cs := by
  induction cs generalizing s with
  | nil => simp [cancelNotes]
  | cons c cs ih =>
    have hnext : (s.askOne c).1.gate.cancelled = true := by
      rw [(s.asked c).frame.2]
      exact h
    obtain ⟨hwaiting, hholding, hnotes⟩ := ih hnext
    rw [askThese_cons]
    refine ⟨?_, ?_, ?_⟩
    · rw [hwaiting, askOne_cancelled h]
      simp only [List.filter_filter]
      apply List.filter_congr
      intro d _
      rw [List.all_cons, Bool.and_comm, bne_comm]
    · rw [hholding, askOne_cancelled h]
    · rw [hnotes, askOne_cancelled h]
      simp [cancelNotes]

/-- Nobody waits any more when everybody was asked at a cancelled gate, and nobody has got anything.
-/
theorem Sound.settle_cancelled (h : s.Sound) (hcancelled : s.gate.cancelled = true) :
    s.settle = (s.clearedTable, cancelNotes s.waiting) := by
  have hround : s.askRound = (s.clearedTable, cancelNotes s.waiting) := by
    obtain ⟨hwaiting, hholding, hnotes⟩ := askThese_cancelled hcancelled s.waiting
    obtain ⟨hcapacity, hstill⟩ := s.askThese_frame s.waiting
    have hserial := s.askThese_nextSerial s.waiting
    have hsound : (s.askThese s.waiting).1.Sound := by
      rw [h.askThese_after h.waiting_nodup fun c hc => hc]
      exact h.after _
    have hnobody : (s.askThese s.waiting).1.waiting = [] := by
      rw [hwaiting]
      simp only [List.filter_eq_nil_iff, List.all_eq_true, not_forall]
      intro d hd
      exact ⟨d, hd, by simp⟩
    have hpermits := hsound.permits_of_nobody hnobody
    have hspare : (s.askThese s.waiting).1.spare = s.spare := by
      simp only [spare, held, hholding, hcapacity]
    rw [hspare] at hpermits
    rw [askRound_eq]
    apply Prod.ext
    · show (s.askThese s.waiting).1 = s.clearedTable
      generalize (s.askThese s.waiting).1 = t at *
      obtain ⟨⟨capacity, permits, cancelled⟩, waiting, holding, nextSerial⟩ := t
      simp only at hcapacity hstill hserial hholding hnobody hpermits
      rw [clearedTable, hcapacity, hstill, hserial, hholding, hnobody, hpermits]
    · exact hnotes
  unfold settle askRounds
  rw [hround]
  cases hw : s.waiting with
  | nil => simp [cancelNotes]
  | cons c cs =>
    -- A second round finds nobody.
    have hempty : askRounds (cs.length + 1) s.clearedTable = (s.clearedTable, []) := by
      unfold askRounds
      rw [askRound_eq]
      simp [clearedTable]
    simp [cancelNotes, hempty]

/-! ## What has happened before leaves no trace -/

/-- A table as it can be between two moves: sound, with its calls asked or not, in whatever round
the asking is. -/
structure Reached (s : GateCalls) : Prop where
  sound : s.Sound
  asking : s.gate.cancelled = false → Asking s [] s.waiting

/-- A table where everybody was asked. It is `Reached`, with no call left that has something to
learn. -/
structure Settled (s : GateCalls) : Prop where
  sound : s.Sound
  asked : s.gate.cancelled = false → Asking s s.waiting []
  cleared : s.gate.cancelled = true → s.waiting = []

namespace Reached

theorem moved {m : GateMove} {notes : List GateNote} (h : s.Reached) (hm : Moved s m t notes) :
    t.Reached where
  sound := h.sound.moved hm
  asking := by
    intro hopen
    cases hm with
    | cancelled => simp [Gate.cancel] at hopen
    | requested name r => exact (h.asking hopen).moved (.requested name r) (by simp)
    | released hfind => exact (h.asking hopen).moved (.released hfind) (by simp)
    | abandoned hfind => exact (h.asking hopen).moved (.abandoned hfind) (by simp)
    | notHeld | notWaiting | looked => exact h.asking hopen

theorem moves (h : s.Reached) (batch : List GateMove) : (s.moves batch).1.Reached := by
  induction batch generalizing s with
  | nil => exact h
  | cons m ms ih =>
    rw [moves_cons]
    exact ih (h.moved (s.moved m))

theorem afresh (h : s.Reached) : s.afresh.Reached := by
  have hle := h.sound.held_le
  have hsound : s.afresh.Sound := by
    refine ⟨⟨Permits.sound_new _, ?_, ?_, ?_⟩, h.sound.numbered, h.sound.old⟩
    · show Permits.total { free := s.spare } + s.held = s.gate.capacity.count
      simp only [Permits.total, gatheredBy_nil, spare]
      omega
    · simp [GateCalls.afresh, Permits.demands]
    · simp [GateCalls.afresh, Permits.demands]
  refine ⟨hsound, ?_⟩
  intro hopen
  refine ⟨hsound, hopen, ?_, rfl, ⟨[], List.nil_prefix, rfl⟩, fun hn => absurd rfl hn⟩
  simp [GateCalls.afresh, OnlyFirst]

theorem settle_eq (h : s.Reached) : s.settle = s.settlement := by
  unfold settlement
  cases hc : s.gate.cancelled with
  | true => simpa using h.sound.settle_cancelled hc
  | false => simpa using (h.asking hc).settle_eq_served

/-- A table settles as one with the same calls does of which none was asked yet: what they had
gathered makes no difference. -/
theorem settle_afresh (h : s.Reached) : s.afresh.settle = s.settle := by
  have hspare : s.afresh.spare = s.spare := by
    simp [GateCalls.afresh, spare, held]
  rw [h.settle_eq, h.afresh.settle_eq]
  simp only [settlement, servedTable, clearedTable, hspare]
  rfl

theorem settled (h : s.Reached) : s.settle.1.Settled := by
  obtain ⟨-, hcancelled, -⟩ := s.settle_frame
  cases hc : s.gate.cancelled with
  | true =>
    obtain ⟨events, hevents⟩ := h.sound.askRounds_after (s.waiting.length + 1)
    refine ⟨?_, ?_, ?_⟩
    · rw [settle, hevents]
      exact h.sound.after events
    · intro hopen
      rw [hcancelled, hc] at hopen
      cases hopen
    · intro _
      simp [h.sound.settle_cancelled hc, clearedTable]
  | false =>
    obtain ⟨-, -, hend, -, -⟩ := (h.asking hc).settle
    refine ⟨hend.sound, fun _ => hend, ?_⟩
    intro hclosed
    rw [hcancelled, hc] at hclosed
    cases hclosed

end Reached

namespace Settled

theorem new (capacity : Parallelism) : Settled (.new (.new capacity)) where
  sound := .new capacity
  asked := fun _ => .new capacity
  cleared := fun _ => rfl

theorem reached (h : s.Settled) : s.Reached := ⟨h.sound, fun hopen => (h.asked hopen).again⟩

theorem step (h : s.Settled) (batch : List GateMove) : (s.step batch).1.Settled :=
  (h.reached.moves batch).settled

theorem permits_eq (h : s.Settled) :
    s.gate.permits = linedUp s.gate.capacity.count s.spare s.waiting := by
  cases hc : s.gate.cancelled with
  | true =>
    have hw := h.cleared hc
    rw [hw]
    exact h.sound.permits_of_nobody hw
  | false => exact (h.asked hc).permits_eq

end Settled

/-! ## Giving up, and being cancelled -/

def steps (s : GateCalls) (batches : List (List GateMove)) : GateCalls :=
  batches.foldl (fun s batch => (s.step batch).1) s

/-- The same holders and the same line, but for this call: what the table would be if the call had
never been made. -/
def without (s : GateCalls) (c : GateCall) : GateCalls :=
  { s with waiting := s.waiting.filter (·.serial != c.serial) }

@[simp] theorem steps_nil (s : GateCalls) : s.steps [] = s := rfl

@[simp] theorem steps_concat (s : GateCalls) (batches : List (List GateMove))
    (batch : List GateMove) : s.steps (batches ++ [batch]) = ((s.steps batches).step batch).1 := by
  simp [steps]

theorem step_eq (s : GateCalls) (batch : List GateMove) :
    s.step batch =
      ((s.moves batch).1.settle.1, (s.moves batch).2 ++ (s.moves batch).1.settle.2) := rfl

theorem moves_abandon {name : String} {c : GateCall}
    (hfind : s.waiting.find? (·.name == name) = some c) :
    s.moves [.abandon name] = ({ s.without c with gate := s.gate.leave c.serial }, []) := by
  simp [moves_cons, move, hfind, without]

/-- What a move does to the gate's settings and to the holders: nobody is granted anything by a
move, and a cancellation stays. -/
theorem Moved.frame {m : GateMove} {notes : List GateNote} (h : Moved s m t notes) :
    t.gate.capacity = s.gate.capacity ∧
      t.gate.cancelled = (s.gate.cancelled || decide (m = .cancel)) ∧
      t.holding.Sublist s.holding := by
  cases h with
  | released _ => simp [Gate.release, List.filter_sublist]
  | abandoned _ => simp [Gate.leave]
  | cancelled => simp [Gate.cancel]
  | requested | notHeld | notWaiting | looked => simp

theorem moves_frame (s : GateCalls) (batch : List GateMove) :
    (s.moves batch).1.gate.capacity = s.gate.capacity ∧
      (s.moves batch).1.gate.cancelled = (s.gate.cancelled || decide (.cancel ∈ batch)) ∧
      (s.moves batch).1.holding.Sublist s.holding := by
  induction batch generalizing s with
  | nil => simp
  | cons m ms ih =>
    rw [moves_cons]
    obtain ⟨hcapacity, hcancelled, hholding⟩ := (s.moved m).frame
    obtain ⟨hcapacities, hcancels, hholdings⟩ := ih (s.move m).1
    refine ⟨hcapacities.trans hcapacity, ?_, hholdings.trans hholding⟩
    rw [hcancels, hcancelled, Bool.or_assoc]
    congr 1
    simp [eq_comm]

/-- A gate that was only taken through settled batches has its capacity, is settled, and is
cancelled exactly if one of the batches has cancelled it. -/
theorem steps_settled (capacity : Parallelism) (batches : List (List GateMove)) :
    let s := (GateCalls.new (.new capacity)).steps batches
    s.Settled ∧ s.gate.capacity = capacity ∧
      (s.gate.cancelled = true ↔ ∃ batch ∈ batches, GateMove.cancel ∈ batch) := by
  induction batches using List.reverseRecOn with
  | nil => exact ⟨.new capacity, rfl, by simp [GateCalls.new, Gate.new]⟩
  | append_singleton batches batch ih =>
    obtain ⟨hsettled, hcapacity, hcancelled⟩ := ih
    simp only [steps_concat]
    generalize (GateCalls.new (.new capacity)).steps batches = s at *
    obtain ⟨hmoved, hcancels, -⟩ := s.moves_frame batch
    obtain ⟨hasked, hstill, -⟩ := (s.moves batch).1.settle_frame
    refine ⟨hsettled.step batch, ?_, ?_⟩
    · exact hasked.trans (hmoved.trans hcapacity)
    · rw [step_eq]
      simp only [hstill, hcancels, Bool.or_eq_true, decide_eq_true_eq, hcancelled]
      simp [or_and_right, exists_or]

namespace Settled

theorem step_eq (h : s.Settled) (batch : List GateMove) :
    s.step batch =
      ((s.moves batch).1.settlement.1, (s.moves batch).2 ++ (s.moves batch).1.settlement.2) := by
  rw [GateCalls.step_eq, (h.reached.moves batch).settle_eq]

/-- A call that is given up leaves what the holders and the line without it make of the gate
(`without`), at whatever place of the line it stood. -/
theorem abandon_eq (h : s.Settled) {name : String} {c : GateCall}
    (hfind : s.waiting.find? (·.name == name) = some c) :
    s.step [.abandon name] = (s.without c).settlement ∧
      (s.without c).afresh.settle = (s.without c).settlement := by
  have hleft := h.reached.moves [.abandon name]
  rw [moves_abandon hfind] at hleft
  constructor
  · rw [h.step_eq, moves_abandon hfind]
    rfl
  · exact hleft.settle_afresh.trans hleft.settle_eq

theorem step_cancelled (h : s.Settled) (hc : s.gate.cancelled = true) (batch : List GateMove) :
    (s.step batch).1.holding.Sublist s.holding ∧
      (s.step batch).2 = (s.moves batch).2 ++ cancelNotes (s.moves batch).1.waiting := by
  obtain ⟨-, hcancelled, hholding⟩ := s.moves_frame batch
  rw [hc, Bool.true_or] at hcancelled
  rw [h.step_eq, settlement, if_pos hcancelled]
  exact ⟨hholding, rfl⟩

theorem request_cancelled (h : s.Settled) (hc : s.gate.cancelled = true) (name : String)
    (r : GateRequest) :
    s.step [.request name r] =
      ({ s with nextSerial := s.nextSerial + 1 }, [.failed name (.cancelled r.point)]) := by
  have hw := h.cleared hc
  have hpermits := h.sound.permits_of_nobody hw
  rw [h.step_eq]
  obtain ⟨⟨capacity, permits, cancelled⟩, waiting, holding, nextSerial⟩ := s
  simp only [spare, held] at hc hw hpermits
  subst hc hw
  simpa [moves_cons, move, settlement, clearedTable, cancelNotes, spare, held] using hpermits.symm

theorem outstanding_eq (h : s.Settled) (hw : s.waiting = []) : s.gate.outstanding = s.held := by
  have ho := h.sound.outstanding_eq
  simpa [gathering, hw] using ho

end Settled

/-- **Giving up leaves no trace.** Whatever happens at a gate, when everybody was asked the gate is
told by the calls that hold tickets and by those that wait, in their order. What nobody holds is
with the first that waits, and free if nobody does; a batch of moves ends as it does at a gate where
nobody was asked before, with the calls at the front served as far as the tickets go. So a call that
is given up, wherever it waits and whatever it has gathered, leaves what the holders and the others
in the line make of the gate.

After a cancellation nobody waits, what is outstanding is what earlier calls still hold, none is
granted anything, and each call fails where it waits. -/
theorem giving_up_leaves_no_trace (capacity : Parallelism) (batches : List (List GateMove)) :
    let s := (GateCalls.new (.new capacity)).steps batches
    s.gate.capacity = capacity ∧
      s.gate.permits = linedUp capacity.count (capacity.count - s.held) s.waiting ∧
      s.gate.permits.free = (if s.waiting = [] then capacity.count - s.held else 0) ∧
      (∀ batch, let t := (s.moves batch).1
        t.settle = t.settlement ∧ t.afresh.settle = t.settlement ∧
          s.step batch = (t.settlement.1, (s.moves batch).2 ++ t.settlement.2)) ∧
      (∀ name c, s.waiting.find? (·.name == name) = some c →
        s.step [.abandon name] = (s.without c).settlement ∧
          (s.without c).afresh.settle = (s.without c).settlement) ∧
      ((∃ batch ∈ batches, GateMove.cancel ∈ batch) →
        s.waiting = [] ∧ s.gate.outstanding = s.held ∧
          (∀ batch, (s.step batch).1.holding.Sublist s.holding ∧
            (s.step batch).2 = (s.moves batch).2 ++ cancelNotes (s.moves batch).1.waiting) ∧
          ∀ name r, s.step [.request name r] =
            ({ s with nextSerial := s.nextSerial + 1 }, [.failed name (.cancelled r.point)])) := by
  intro s
  obtain ⟨h, hcapacity, hcancelled⟩ := steps_settled capacity batches
  have hpermits := h.permits_eq
  rw [hcapacity, spare, hcapacity] at hpermits
  refine ⟨hcapacity, hpermits, ?_, ?_, ?_, ?_⟩
  · rw [hpermits]
    exact free_linedUp ..
  · intro batch t
    have ht := h.reached.moves batch
    exact ⟨ht.settle_eq, ht.settle_afresh.trans ht.settle_eq, h.step_eq batch⟩
  · intro name c hfind
    exact h.abandon_eq hfind
  · intro hsome
    have hc := hcancelled.mpr hsome
    have hw := h.cleared hc
    refine ⟨hw, h.outstanding_eq hw, h.step_cancelled hc, h.request_cancelled hc⟩

/-- A drain has gathered one of four tickets when it is given up, and the call behind it gets that
one. If the gate is cancelled instead, three tickets are out and another call fails, although one is
free. -/
theorem giving_up_leaves_no_trace_of_drain :
    let batches : List (List GateMove) :=
      [[.request "a" .ticket, .request "b" .ticket, .request "c" .ticket],
        [.request "drain" .everything], [.request "late" .ticket]]
    let s := (GateCalls.new (.new { count := 4 })).steps batches
    let t := (GateCalls.new (.new { count := 4 })).steps (batches ++ [[.cancel]])
    s.gate.permits.gathered 3 = 1 ∧
      s.waiting.find? (·.name == "drain") = some ⟨3, "drain", .everything⟩ ∧
      (s.step [.abandon "drain"]).2 = [.granted "late"] ∧
      (∃ batch ∈ batches ++ [[.cancel]], GateMove.cancel ∈ batch) ∧
      t.gate.outstanding = 3 ∧
      (t.step [.request "new" .ticket]).2 = [.failed "new" (.cancelled .admission)] := by
  intro batches s t
  have hfind : s.waiting.find? (·.name == "drain") = some ⟨3, "drain", .everything⟩ := by decide
  have hcancel : ∃ batch ∈ batches ++ [[.cancel]], GateMove.cancel ∈ batch := by decide
  obtain ⟨-, -, -, -, habandon, -⟩ := giving_up_leaves_no_trace { count := 4 } batches
  obtain ⟨-, -, -, -, -, hclosed⟩ :=
    giving_up_leaves_no_trace { count := 4 } (batches ++ [[.cancel]])
  obtain ⟨-, hout, -, hfails⟩ := hclosed hcancel
  refine ⟨by decide, hfind, ?_, hcancel, ?_, ?_⟩
  · rw [(habandon _ _ hfind).1]
    decide
  · exact hout.trans (by decide)
  · rw [hfails]
    rfl

end GateCalls

end WorkBundle
