import WorkBundle.Proofs.GateCalls

/-!
# Calls are served in their order

Without a cancellation a gate is a fair queue also for mixed calls. While the waiting calls are
asked in their order, those at the front succeed until one of them cannot; from there on nobody does
(`Asking`). So one round of asking settles the table (`Asking.settle`), and what has succeeded is
always the beginning of what was called, up to the calls that were given up.

A settled table has no idle ticket: while a call waits, nothing is free, nobody but the first call
has gathered anything, and somebody holds tickets whose return will move the line on.
-/

set_option autoImplicit false

namespace WorkBundle

namespace GateCalls

variable {s t : GateCalls} {still todo : List GateCall} {c : GateCall}

theorem askOne_waits {gate : Gate Nat} (h : s.gate.ask c.serial c.request = (gate, none)) :
    s.askOne c = ({ s with gate }, []) := by
  simp only [askOne, h]

theorem askOne_granted {gate : Gate Nat}
    (h : s.gate.ask c.serial c.request = (gate, some (.ok ()))) :
    s.askOne c =
      ({ s with
          gate
          waiting := s.waiting.filter (·.serial != c.serial)
          holding := s.holding ++ [c] }, [.granted c.name]) := by
  simp only [askOne, h]

/-! ## A round of asking -/

/-- A round of asking is under way. The calls of `still` were asked and go on waiting, those of
`todo` are to be asked. All of the first have a claim in the line, and of the second those that had
one before; once a call had to wait, nobody is granted any more. -/
structure Asking (s : GateCalls) (still todo : List GateCall) : Prop where
  sound : s.Sound
  uncancelled : s.gate.cancelled = false
  first : OnlyFirst s.gate.permits.waiting
  waiting : s.waiting = still ++ todo
  line : ∃ q, q <+: todo.map (·.serial) ∧ s.gate.permits.line = still.map (·.serial) ++ q
  blocked : still ≠ [] → s.gate.permits.granted = []

namespace Asking

theorem new (capacity : Parallelism) : Asking (.new (.new capacity)) [] [] where
  sound := Sound.new capacity
  uncancelled := rfl
  first := fun c hc => by cases hc
  waiting := rfl
  line := ⟨[], List.nil_prefix, rfl⟩
  blocked := fun h => absurd rfl h

theorem mem_waiting (h : Asking s still (c :: todo)) : c ∈ s.waiting := by
  rw [h.waiting]
  simp

theorem granted_nil (h : Asking s still []) : s.gate.permits.granted = [] := by
  by_cases hs : still = []
  · obtain ⟨q, hq, hline⟩ := h.line
    rw [List.prefix_nil.mp hq, hs] at hline
    have hnobody : s.gate.permits.granted ++ s.gate.permits.waiting = [] :=
      List.map_eq_nil_iff.mp hline
    exact (List.append_eq_nil_iff.mp hnobody).1
  · exact h.blocked hs

theorem line_eq (h : Asking s still []) : s.gate.permits.line = still.map (·.serial) := by
  obtain ⟨q, hq, hline⟩ := h.line
  rw [hline, List.prefix_nil.mp hq, List.append_nil]

theorem again (h : Asking s still []) : Asking s [] still where
  sound := h.sound
  uncancelled := h.uncancelled
  first := h.first
  waiting := by rw [h.waiting, List.append_nil, List.nil_append]
  line := ⟨_, List.prefix_refl _, by rw [h.line_eq]; rfl⟩
  blocked := fun hn => absurd rfl hn

/-- The call that is asked joins the line behind those that were asked before it, unless it stood
there already. -/
theorem queued (h : Asking s still (c :: todo)) :
    OnlyFirst (s.gate.queued c.serial c.request).permits.waiting ∧
      (∃ q, q <+: todo.map (·.serial) ∧
        (s.gate.queued c.serial c.request).permits.line = still.map (·.serial) ++ c.serial :: q) ∧
      (still ≠ [] → (s.gate.queued c.serial c.request).permits.granted = []) := by
  obtain ⟨q, hq, hline⟩ := h.line
  -- The calls before `c` have other numbers, so `c` stands in the line only if it begins `q`.
  have hnew : c.serial ∉ still.map (·.serial) := by
    have hn := h.sound.waiting_nodup
    rw [h.waiting, List.map_append, List.map_cons] at hn
    exact fun hmem => (List.nodup_append.mp hn).2.2 _ hmem _ List.mem_cons_self rfl
  unfold Gate.queued
  cases hclaims : s.gate.permits.claims c.serial with
  | true =>
    rw [if_pos rfl]
    refine ⟨h.first, ?_, h.blocked⟩
    rw [Permits.claims_iff_mem_line, hline] at hclaims
    have hmem : c.serial ∈ q := (List.mem_append.mp hclaims).resolve_left hnew
    obtain ⟨d, q, rfl⟩ := List.exists_cons_of_ne_nil (List.ne_nil_of_mem hmem)
    rw [List.map_cons, List.cons_prefix_cons] at hq
    obtain ⟨rfl, hq⟩ := hq
    exact ⟨q, hq, hline⟩
  | false =>
    rw [if_neg Bool.false_ne_true]
    have hneed := c.request.need_pos s.gate.capacity
    have hq : q = [] := by
      have hmem : c.serial ∉ q := fun hmem => by
        have := (Permits.claims_iff_mem_line _ _).mpr (hline ▸ List.mem_append_right _ hmem)
        exact absurd (hclaims.symm.trans this) Bool.false_ne_true
      cases q with
      | nil => rfl
      | cons d q =>
        obtain ⟨rfl, -⟩ := List.cons_prefix_cons.mp hq
        exact absurd List.mem_cons_self hmem
    refine ⟨(h.first.append rfl).deal, ⟨[], List.nil_prefix, ?_⟩, fun hs => ?_⟩
    · rw [Permits.line_join, hline, hq, List.append_nil]
    · -- Those who were asked before stand in the line and are not granted, so they wait.
      have hgranted := h.blocked hs
      have hwaits : s.gate.permits.waiting ≠ [] := by
        intro hw
        rw [Permits.line, hgranted, hw, hq] at hline
        exact hs (by simpa using hline)
      rw [Permits.granted_join h.sound.balanced.sound hwaits _ hneed, hgranted]

/-- A call that is asked waits like those before it, or it succeeds and nobody before it waits. So
calls succeed from the front only, which is the whole order of the gate. -/
theorem askOne (h : Asking s still (c :: todo)) :
    (Asking (s.askOne c).1 (still ++ [c]) todo ∧ (s.askOne c).1.holding = s.holding ∧
        (s.askOne c).2 = []) ∨
      (still = [] ∧ Asking (s.askOne c).1 [] todo ∧
        (s.askOne c).1.holding = s.holding ++ [c] ∧ (s.askOne c).2 = [.granted c.name]) := by
  have hsound : (s.askOne c).1.Sound := h.sound.asked h.mem_waiting (s.asked c)
  obtain ⟨hfirst, ⟨q, hq, hline⟩, hblocked⟩ := h.queued
  have hb := h.sound.balanced.queued (h.sound.asks_eq h.mem_waiting)
  have hask := s.gate.ask_eq c.serial c.request
  rw [h.uncancelled, if_neg Bool.false_ne_true] at hask
  have hnodup : (s.gate.queued c.serial c.request).permits.line.Nodup := by
    have hn := hb.nodup
    rw [Permits.demands, List.map_map] at hn
    exact (List.perm_append_comm.map _).nodup_iff.mp hn
  by_cases hgranted : (s.gate.queued c.serial c.request).permits.isGranted c.serial = true
  · rw [if_pos hgranted] at hask
    have hnobody : still = [] := by
      by_contra hs
      rw [Permits.isGranted, hblocked hs] at hgranted
      cases hgranted
    rw [hnobody] at hline
    have hcollect : ((s.gate.queued c.serial c.request).permits.collect c.serial).line = q := by
      refine (Permits.first_granted hline hnodup fun hg => ?_).2
      rw [Permits.isGranted, hg] at hgranted
      cases hgranted
    have hrest : s.waiting.filter (·.serial != c.serial) = todo := by
      have hn := h.sound.waiting_nodup
      rw [h.waiting, hnobody] at hn ⊢
      obtain ⟨hc, -⟩ := List.nodup_cons.mp hn
      rw [List.nil_append, List.filter_cons_of_neg (by simp)]
      refine List.filter_eq_self.mpr fun d hd => ?_
      have hne : d.serial ≠ c.serial := fun heq => hc (List.mem_map.mpr ⟨d, hd, heq⟩)
      simpa using hne
    have hopen := (s.asked c).frame.2.trans h.uncancelled
    rw [askOne_granted hask] at hsound hopen ⊢
    exact .inr ⟨hnobody, ⟨hsound, hopen, hfirst, hrest, ⟨q, hq, hcollect⟩,
      fun hn => absurd rfl hn⟩, rfl, rfl⟩
  · rw [if_neg hgranted] at hask
    have hnone : (s.gate.queued c.serial c.request).permits.granted = [] := by
      by_cases hs : still = []
      · by_contra hg
        rw [hs] at hline
        exact hgranted (Permits.first_granted hline hnodup hg).1
      · exact hblocked hs
    have hopen := (s.asked c).frame.2.trans h.uncancelled
    rw [askOne_waits hask] at hsound hopen ⊢
    refine .inl ⟨⟨hsound, hopen, hfirst, ?_, ⟨q, hq, ?_⟩, fun _ => hnone⟩, rfl, rfl⟩
    · rw [List.append_assoc]
      exact h.waiting
    · rw [List.map_append, List.append_assoc]
      exact hline

/-- In a round the calls at the front succeed, in their order, and all others go on waiting. -/
theorem askThese (h : Asking s still todo) :
    ∃ grants still', still ++ todo = grants ++ still' ∧ Asking (s.askThese todo).1 still' [] ∧
      (s.askThese todo).1.holding = s.holding ++ grants ∧
      (s.askThese todo).2 = grants.map (.granted ·.name) := by
  induction todo generalizing s still with
  | nil =>
    refine ⟨[], still, List.append_nil _, h, (List.append_nil _).symm, rfl⟩
  | cons c todo ih =>
    rw [askThese_cons]
    rcases h.askOne with ⟨h', hholding, hnotes⟩ | ⟨rfl, h', hholding, hnotes⟩
    · obtain ⟨grants, still', hsplit, hend, hheld, htold⟩ := ih h'
      refine ⟨grants, still', ?_, hend, ?_, ?_⟩
      · rw [← hsplit, List.append_assoc]
        rfl
      · rw [hheld, hholding]
      · rw [hnotes, htold]
        rfl
    · obtain ⟨grants, still', hsplit, hend, hheld, htold⟩ := ih h'
      refine ⟨c :: grants, still', ?_, hend, ?_, ?_⟩
      · rw [List.cons_append, ← hsplit]
        rfl
      · rw [hheld, hholding, List.append_assoc]
        rfl
      · rw [hnotes, htold]
        rfl

theorem askRound_eq_self (h : Asking s s.waiting []) : s.askRound = (s, []) := by
  have hask (d : GateCall) (hd : d ∈ s.waiting) : s.askOne d = (s, []) := by
    have hclaims : s.gate.permits.claims d.serial = true := by
      rw [Permits.claims_iff_mem_line, h.line_eq]
      exact List.mem_map_of_mem hd
    have hwaits := s.gate.ask_eq d.serial d.request
    rw [h.uncancelled, if_neg Bool.false_ne_true, Gate.queued, hclaims, if_pos rfl,
      Permits.isGranted, h.granted_nil, List.any_nil, if_neg Bool.false_ne_true] at hwaits
    exact askOne_waits hwaits
  have hall (cs : List GateCall) (hcs : ∀ d ∈ cs, d ∈ s.waiting) : s.askThese cs = (s, []) := by
    induction cs with
    | nil => rfl
    | cons d cs ih =>
      rw [askThese_cons, hask d (hcs d List.mem_cons_self),
        ih fun e he => hcs e (List.mem_cons_of_mem _ he)]
      rfl
  exact hall s.waiting fun _ hd => hd

/-- One round settles the table: if anybody succeeds in it there is a second, in which nobody does.
The rounds of `askRounds` that are left are never needed. -/
theorem settle_eq (h : Asking s [] s.waiting) : s.settle = s.askRound := by
  obtain ⟨grants, still, hsplit, hend, -, htold⟩ := h.askThese
  rw [← askRound_eq] at hend htold
  unfold GateCalls.settle askRounds
  split
  · rename_i hround
    exact hround.symm
  · rename_i t notes hne hround
    rw [hround] at hend htold ⊢
    have hstill : t.waiting = still := by rw [hend.waiting, List.append_nil]
    rw [← hstill] at hend
    obtain ⟨n, hn⟩ : ∃ n, s.waiting.length = n + 1 := by
      cases hw : s.waiting.length with
      | succ n => exact ⟨n, rfl⟩
      | zero =>
        rw [List.length_eq_zero_iff.mp hw] at hsplit
        rw [(List.append_eq_nil_iff.mp hsplit.symm).1] at htold
        exact absurd htold hne
    rw [hn]
    unfold askRounds
    rw [hend.askRound_eq_self]
    simp

theorem settle (h : Asking s [] s.waiting) :
    ∃ grants, s.waiting = grants ++ s.settle.1.waiting ∧ Asking s.settle.1 s.settle.1.waiting [] ∧
      s.settle.1.holding = s.holding ++ grants ∧ s.settle.2 = grants.map (.granted ·.name) := by
  obtain ⟨grants, still, hsplit, hend, hheld, htold⟩ := h.askThese
  rw [← askRound_eq, ← h.settle_eq] at hend hheld htold
  have hstill : s.settle.1.waiting = still := by rw [hend.waiting, List.append_nil]
  rw [← hstill] at hsplit hend
  exact ⟨grants, hsplit, hend, hheld, htold⟩

/-! ## Moves between the rounds -/

theorem moved {m : GateMove} {notes : List GateNote} (h : Asking s [] s.waiting)
    (hm : Moved s m t notes) (hopen : m ≠ .cancel) : Asking t [] t.waiting := by
  obtain ⟨q, hq, hline⟩ := h.line
  have hsound := h.sound.moved hm
  cases hm with
  | requested name r =>
    refine ⟨hsound, h.uncancelled, h.first, rfl, ⟨q, ?_, hline⟩, fun hn => absurd rfl hn⟩
    rw [List.map_append]
    exact hq.trans (List.prefix_append _ _)
  | released =>
    refine ⟨hsound, h.uncancelled, h.first.deal, rfl, ⟨q, hq, ?_⟩, fun hn => absurd rfl hn⟩
    exact (Permits.line_release _ _).trans hline
  | @abandoned _ c =>
    refine ⟨hsound, h.uncancelled, (h.first.filter _).deal, rfl, ⟨q.filter (· != c.serial), ?_, ?_⟩,
      fun hn => absurd rfl hn⟩
    · have hfilter := hq.filter (· != c.serial)
      rw [List.filter_map] at hfilter
      exact hfilter
    · refine (Permits.line_leave _ _).trans ?_
      rw [hline]
      rfl
  | cancelled => exact absurd rfl hopen
  | notHeld | notWaiting | looked => exact h

/-! ## Nothing is idle -/

/-- In a settled table a ticket is free only if nobody waits, and only the first call gathers
(`gathered_tail`). -/
theorem none_free (h : Asking s s.waiting []) (hw : s.waiting ≠ []) :
    s.gate.permits.free = 0 := by
  refine h.sound.balanced.sound.none_free fun hnil => hw ?_
  have hline := h.line_eq
  rw [Permits.line, h.granted_nil, hnil] at hline
  exact List.map_eq_nil_iff.mp hline.symm

theorem gathered_tail (h : Asking s s.waiting []) :
    ∀ c ∈ s.waiting.tail, s.gate.permits.gathered c.serial = 0 := by
  intro c hc
  have hn := h.sound.waiting_nodup
  have hline := h.line_eq
  rw [Permits.line, h.granted_nil, List.nil_append] at hline
  refine gatheredBy_eq_zero fun d hd => ?_
  rw [h.granted_nil, List.append_nil, List.mem_filter] at hd
  obtain ⟨hd, hid⟩ := hd
  have hid : d.id = c.serial := by simpa using hid
  -- The claim of `c` is not the first of the line, since `c` is not the first call.
  cases hwaits : s.waiting with
  | nil => rw [hwaits] at hc; cases hc
  | cons b cs =>
    cases hclaims : s.gate.permits.waiting with
    | nil => rw [hclaims] at hd; cases hd
    | cons e es =>
      rw [hwaits] at hn hc hline
      rw [hclaims] at hd hline
      simp only [List.map_cons, List.cons.injEq] at hline
      rcases List.mem_cons.mp hd with rfl | hd
      · have hmem : c.serial ∈ cs.map (·.serial) := List.mem_map_of_mem hc
        rw [← hid, hline.1] at hmem
        exact absurd hmem (List.nodup_cons.mp hn).1
      · refine h.first d ?_
        rw [hclaims]
        exact hd

/-- What the first call lacks is held by somebody, so a line that waits is never stuck for good. -/
theorem holding_ne_nil (h : Asking s s.waiting []) (hw : s.waiting ≠ []) : s.holding ≠ [] := by
  intro hholding
  have hc := h.sound.conserved
  rw [held, hholding, worth_nil, h.none_free hw, h.sound.gathering_eq, h.granted_nil,
    gatheredBy_nil] at hc
  have hone := s.gate.capacity.one_le
  cases hclaims : s.gate.permits.waiting with
  | nil => simp only [hclaims, gatheredBy_nil] at hc; omega
  | cons e es =>
    have hrest : gatheredBy es = 0 := gatheredBy_eq_zero fun d hd => h.first d (by rwa [hclaims])
    have hlacks := h.sound.balanced.sound.lacking e (by rw [hclaims]; exact List.mem_cons_self)
    obtain ⟨r, -, hneed⟩ := h.sound.balanced.asked e.demand
      (List.mem_map_of_mem (by rw [hclaims]; exact List.mem_cons_self))
    have hneed : e.need = r.need s.gate.capacity.count := hneed
    have hle := r.need_le s.gate.capacity
    rw [hclaims, gatheredBy_cons, hrest] at hc
    omega

end Asking

/-! ## Everything is given back -/

def releaseAll (s : GateCalls) : List GateMove := s.holding.map (.release ·.name)

def turnOver (s : GateCalls) : GateCalls := (s.step s.releaseAll).1

theorem moves_release (h : s.Sound) {names : List String}
    (hnames : names.Perm (s.holding.map (·.name))) :
    (s.moves (names.map .release)).1.holding = [] ∧
      (s.moves (names.map .release)).1.waiting = s.waiting := by
  induction names generalizing s with
  | nil => exact ⟨List.map_eq_nil_iff.mp hnames.nil_eq.symm, rfl⟩
  | cons name names ih =>
    obtain ⟨d, hd, hname⟩ := List.mem_map.mp (hnames.mem_iff.mp List.mem_cons_self)
    obtain ⟨c, hfind⟩ : ∃ c, s.holding.find? (·.name == name) = some c :=
      Option.isSome_iff_exists.mp (List.find?_isSome.mpr ⟨d, hd, by simpa using hname⟩)
    have hcname : c.name = name := by simpa using List.find?_some hfind
    have hrest := (perm_cons_filter h.holding_nodup (List.mem_of_find?_eq_some hfind)).map
      GateCall.name
    have hnext := h.moved (s.moved (.release name))
    have hmove : s.move (.release name) = ({ s with
        gate := s.gate.release (c.request.need s.gate.capacity.count)
        holding := s.holding.filter (·.serial != c.serial) }, []) := by
      simp only [move, hfind]
    rw [hmove] at hnext
    rw [List.map_cons, moves_cons, hmove]
    refine ih hnext (List.Perm.cons_inv (a := name) ?_)
    refine hnames.trans (hrest.trans ?_)
    rw [List.map_cons, hcname]

namespace Asking

theorem moves {batch : List GateMove} (h : Asking s [] s.waiting) (hopen : .cancel ∉ batch) :
    Asking (s.moves batch).1 [] (s.moves batch).1.waiting := by
  induction batch generalizing s with
  | nil => exact h
  | cons m ms ih =>
    have hm : m ≠ .cancel := fun heq => hopen (heq ▸ List.mem_cons_self)
    rw [moves_cons]
    exact ih (h.moved (s.moved m) hm) fun hmem => hopen (List.mem_cons_of_mem _ hmem)

theorem turnOver (h : Asking s s.waiting []) :
    Asking s.turnOver s.turnOver.waiting [] ∧ s.turnOver.waiting.length ≤ s.waiting.length - 1 := by
  have hopen : GateMove.cancel ∉ s.releaseAll := by simp [releaseAll]
  have hnames : s.releaseAll = (s.holding.map (·.name)).map .release := by
    rw [List.map_map]
    rfl
  obtain ⟨hholding, hwaiting⟩ := moves_release h.sound (List.Perm.refl (s.holding.map (·.name)))
  rw [← hnames] at hholding hwaiting
  obtain ⟨grants, hsplit, hend, hheld, -⟩ := (h.again.moves hopen).settle
  rw [hholding, List.nil_append] at hheld
  have hturn : s.turnOver = (s.moves s.releaseAll).1.settle.1 := rfl
  rw [← hturn] at hsplit hend hheld
  rw [hwaiting] at hsplit
  refine ⟨hend, ?_⟩
  have hlen := congrArg List.length hsplit
  rw [List.length_append] at hlen
  by_cases hw : s.turnOver.waiting = []
  · rw [hw]
    exact Nat.zero_le _
  · -- Somebody holds what the first call lacks, and it was granted just now.
    have hgrants : 0 < grants.length := List.length_pos_iff.mpr (hheld ▸ hend.holding_ne_nil hw)
    omega

/-- No wake-up is lost: as many rounds of giving everything back as there are calls that wait leave
nobody waiting. -/
theorem turnOver_empties (h : Asking s s.waiting []) :
    (GateCalls.turnOver^[s.waiting.length] s).waiting = [] := by
  suffices hall : ∀ n (s : GateCalls), Asking s s.waiting [] → s.waiting.length ≤ n →
      (GateCalls.turnOver^[n] s).waiting = [] from hall _ s h (Nat.le_refl _)
  intro n
  induction n with
  | zero => exact fun s _ hn => List.length_eq_zero_iff.mp (Nat.le_zero.mp hn)
  | succ n ih =>
    intro s h hn
    obtain ⟨hend, hless⟩ := h.turnOver
    exact ih s.turnOver hend (by omega)

end Asking

/-! ## What became of the calls -/

def calledBy (s : GateCalls) : GateMove → List GateCall
  | .request name request => [⟨s.nextSerial, name, request⟩]
  | _ => []

def abandonedBy (s : GateCalls) : GateMove → List GateCall
  | .abandon name => (s.waiting.find? (·.name == name)).toList
  | _ => []

/-- The calls that succeed when the table is settled: they are the new holders, behind the old ones.
-/
def grantedBySettling (s : GateCalls) : List GateCall := s.settle.1.holding.drop s.holding.length

end GateCalls

/-- A table, and what became of all calls that were made at it, in the order in which it happened.
The record changes nothing in the table (`after_table`). -/
structure GateRun where
  table : GateCalls
  made : List GateCall := []
  abandoned : List GateCall := []
  succeeded : List GateCall := []

namespace GateRun

open GateCalls

def new (capacity : Parallelism) : GateRun := { table := .new (.new capacity) }

def move (r : GateRun) (m : GateMove) : GateRun :=
  { r with
    table := (r.table.move m).1
    made := r.made ++ r.table.calledBy m
    abandoned := r.abandoned ++ r.table.abandonedBy m }

def settle (r : GateRun) : GateRun :=
  { r with
    table := r.table.settle.1
    succeeded := r.succeeded ++ r.table.grantedBySettling }

def step (r : GateRun) (batch : List GateMove) : GateRun := (batch.foldl move r).settle

def after (r : GateRun) (batches : List (List GateMove)) : GateRun := batches.foldl step r

theorem foldl_move_table (r : GateRun) (batch : List GateMove) :
    (batch.foldl move r).table = (r.table.moves batch).1 := by
  induction batch generalizing r with
  | nil => rfl
  | cons m ms ih =>
    rw [moves_cons]
    exact ih (r.move m)

theorem step_table (r : GateRun) (batch : List GateMove) :
    (r.step batch).table = (r.table.step batch).1 := by
  show (batch.foldl move r).table.settle.1 = (r.table.moves batch).1.settle.1
  rw [foldl_move_table]

theorem after_table (r : GateRun) (batches : List (List GateMove)) :
    (r.after batches).table = batches.foldl (fun s batch => (s.step batch).1) r.table := by
  induction batches generalizing r with
  | nil => rfl
  | cons batch batches ih =>
    rw [List.foldl_cons, ← step_table]
    exact ih (r.step batch)

/-- The calls that were made, without those that were given up, are those that succeeded and then
those that wait. Both keep the order of their `serial` numbers. -/
structure InOrder (r : GateRun) : Prop where
  asking : Asking r.table [] r.table.waiting
  served : r.made.filter (· ∉ r.abandoned) = r.succeeded ++ r.table.waiting
  sorted : r.made.Pairwise (·.serial < ·.serial)
  old : ∀ c ∈ r.made, c.serial < r.table.nextSerial
  gone : ∀ c ∈ r.abandoned, c ∈ r.made
  owners : ∀ c ∈ r.table.holding, c ∈ r.succeeded

namespace InOrder

variable {r : GateRun}

theorem new (capacity : Parallelism) : (GateRun.new capacity).InOrder where
  asking := Asking.new capacity
  served := rfl
  sorted := List.Pairwise.nil
  old := fun c hc => by cases hc
  gone := fun c hc => by cases hc
  owners := fun c hc => by cases hc

theorem before (h : r.InOrder) : (r.succeeded ++ r.table.waiting).Pairwise (·.serial < ·.serial) :=
  h.served ▸ h.sorted.filter _

theorem made_nodup (h : r.InOrder) : (r.made.map (·.serial)).Nodup :=
  List.pairwise_map.mpr (h.sorted.imp Nat.ne_of_lt)

theorem waiting_made (h : r.InOrder) : ∀ c ∈ r.table.waiting, c ∈ r.made := fun c hc => by
  have hmem := List.mem_append_right r.succeeded hc
  rw [← h.served] at hmem
  exact (List.mem_filter.mp hmem).1

/-- Giving up a waiting call takes it, and no other, out of those that are to be served. -/
theorem served_without (h : r.InOrder) {c : GateCall} (hc : c ∈ r.table.waiting) :
    r.made.filter (· ∉ r.abandoned ++ [c]) =
      r.succeeded ++ r.table.waiting.filter (·.serial != c.serial) := by
  obtain ⟨-, hwaits, hbefore⟩ := List.pairwise_append.mp h.before
  have hsucceeded : r.succeeded.filter (·.serial != c.serial) = r.succeeded :=
    List.filter_eq_self.mpr fun d hd => by
      have hlt := hbefore d hd c hc
      simp only [bne_iff_ne]
      omega
  have hsplit : r.made.filter (· ∉ r.abandoned ++ [c]) =
      (r.made.filter (· ∉ r.abandoned)).filter (·.serial != c.serial) := by
    rw [List.filter_filter]
    refine List.filter_congr fun d hd => ?_
    have hserial : d = c ↔ d.serial = c.serial :=
      ⟨fun heq => heq ▸ rfl, List.inj_on_of_nodup_map h.made_nodup hd (h.waiting_made c hc)⟩
    simp [hserial, bne, beq_eq_decide, Bool.and_comm]
  rw [hsplit, h.served, List.filter_append, hsucceeded]

theorem quiet (h : r.InOrder) {t : GateCalls} (ha : Asking t [] t.waiting)
    (hwaiting : t.waiting = r.table.waiting) (hserial : t.nextSerial = r.table.nextSerial)
    (hholding : ∀ c ∈ t.holding, c ∈ r.table.holding) :
    InOrder { r with table := t, made := r.made ++ [], abandoned := r.abandoned ++ [] } := by
  simp only [List.append_nil]
  refine ⟨ha, ?_, h.sorted, ?_, h.gone, fun c hc => h.owners c (hholding c hc)⟩
  · rw [hwaiting]
    exact h.served
  · rw [hserial]
    exact h.old

theorem moved (h : r.InOrder) {m : GateMove} {t : GateCalls} {notes : List GateNote}
    (hm : Moved r.table m t notes) (hopen : m ≠ .cancel) :
    InOrder { r with
      table := t
      made := r.made ++ r.table.calledBy m
      abandoned := r.abandoned ++ r.table.abandonedBy m } := by
  have hasking := h.asking.moved hm hopen
  cases hm with
  | requested name request =>
    have hfresh : (⟨r.table.nextSerial, name, request⟩ : GateCall) ∉ r.abandoned := fun hmem =>
      Nat.lt_irrefl _ (h.old _ (h.gone _ hmem))
    refine ⟨hasking, ?_, ?_, ?_, ?_, h.owners⟩
    · show (r.made ++ [_]).filter (· ∉ r.abandoned ++ []) = r.succeeded ++ (r.table.waiting ++ [_])
      rw [List.append_nil, List.filter_append, h.served, List.append_assoc,
        List.filter_cons_of_pos (by simpa using hfresh)]
      rfl
    · refine List.pairwise_append.mpr ⟨h.sorted, List.pairwise_singleton _ _, fun c hc d hd => ?_⟩
      rw [List.mem_singleton.mp hd]
      exact h.old c hc
    · intro c hc
      show c.serial < r.table.nextSerial + 1
      rcases List.mem_append.mp hc with hc | hc
      · exact Nat.lt_succ_of_lt (h.old c hc)
      · rw [List.mem_singleton.mp hc]
        exact Nat.lt_succ_self _
    · intro c hc
      rw [show r.abandoned ++ r.table.abandonedBy _ = r.abandoned from List.append_nil _] at hc
      exact List.mem_append_left _ (h.gone c hc)
  | abandoned hfind =>
    have hc := List.mem_of_find?_eq_some hfind
    simp only [calledBy, abandonedBy, hfind, Option.toList_some, List.append_nil]
    refine ⟨hasking, h.served_without hc, h.sorted, h.old, fun d hd => ?_, h.owners⟩
    rcases List.mem_append.mp hd with hd | hd
    · exact h.gone d hd
    · rw [List.mem_singleton.mp hd]
      exact h.waiting_made _ hc
  | released => exact h.quiet hasking rfl rfl fun d hd => (List.mem_filter.mp hd).1
  | cancelled => exact absurd rfl hopen
  | notHeld | looked => exact h.quiet hasking rfl rfl fun _ hd => hd
  | notWaiting hnone =>
    simp only [calledBy, abandonedBy, hnone, Option.toList_none]
    exact h.quiet hasking rfl rfl fun _ hd => hd

theorem move (h : r.InOrder) {m : GateMove} (hopen : m ≠ .cancel) : (r.move m).InOrder :=
  h.moved (r.table.moved m) hopen

theorem moves (h : r.InOrder) {batch : List GateMove} (hopen : .cancel ∉ batch) :
    (batch.foldl GateRun.move r).InOrder := by
  induction batch generalizing r with
  | nil => exact h
  | cons m ms ih =>
    have hm : m ≠ .cancel := fun heq => hopen (heq ▸ List.mem_cons_self)
    exact ih (h.move hm) fun hmem => hopen (List.mem_cons_of_mem _ hmem)

theorem settle (h : r.InOrder) :
    r.settle.InOrder ∧ Asking r.settle.table r.settle.table.waiting [] := by
  obtain ⟨grants, hsplit, hend, hheld, -⟩ := h.asking.settle
  have hgrants : r.table.grantedBySettling = grants := by
    rw [grantedBySettling, hheld, List.drop_left]
  refine ⟨⟨hend.again, ?_, h.sorted, ?_, h.gone, ?_⟩, hend⟩
  · show r.made.filter (· ∉ r.abandoned) = r.succeeded ++ r.table.grantedBySettling ++ _
    rw [h.served, hsplit, hgrants, List.append_assoc]
    rfl
  · have hserial : r.table.settle.1.nextSerial = r.table.nextSerial := by
      rw [h.asking.settle_eq, askRound_eq, askThese_nextSerial]
    intro c hc
    exact hserial ▸ h.old c hc
  · intro c hc
    show c ∈ r.succeeded ++ r.table.grantedBySettling
    rw [hgrants]
    rcases List.mem_append.mp (hheld ▸ hc : c ∈ r.table.holding ++ grants) with hc | hc
    · exact List.mem_append_left _ (h.owners c hc)
    · exact List.mem_append_right _ hc

theorem after (h : r.InOrder) (hend : Asking r.table r.table.waiting [])
    {batches : List (List GateMove)} (hopen : ∀ batch ∈ batches, .cancel ∉ batch) :
    (r.after batches).InOrder ∧
      Asking (r.after batches).table (r.after batches).table.waiting [] := by
  induction batches generalizing r with
  | nil => exact ⟨h, hend⟩
  | cons batch batches ih =>
    obtain ⟨hb, hbs⟩ := List.forall_mem_cons.mp hopen
    obtain ⟨hstep, hsettled⟩ := (h.moves hb).settle
    exact ih hstep hsettled hbs

end InOrder

/-- **Order and no idle ticket.** Whatever calls are made, given up and released at a gate that is
not cancelled, when the waiting calls are asked in their order until none answers: the record that
`GateRun` keeps of the calls changes nothing in the table of the gate, and the calls that succeed
are, in their order, the first of those that were made and not given up, so nobody overtakes
a call that waits. While a call waits nothing is free, only the first has gathered anything, and
somebody who succeeded earlier holds tickets; giving everything back, as often as there are calls
that wait, lets them all succeed. -/
theorem served_in_order (capacity : Parallelism) (batches : List (List GateMove))
    (hopen : ∀ batch ∈ batches, GateMove.cancel ∉ batch) :
    let r := (GateRun.new capacity).after batches
    r.table = batches.foldl (fun s batch => (s.step batch).1) (.new (.new capacity)) ∧
      r.made.filter (· ∉ r.abandoned) = r.succeeded ++ r.table.waiting ∧
      (r.succeeded ++ r.table.waiting).Pairwise (·.serial < ·.serial) ∧
      (r.table.waiting ≠ [] →
        r.table.gate.permits.free = 0 ∧
        (∀ c ∈ r.table.waiting.tail, r.table.gate.permits.gathered c.serial = 0) ∧
        ∃ c ∈ r.table.holding, c ∈ r.succeeded) ∧
      (turnOver^[r.table.waiting.length] r.table).waiting = [] := by
  intro r
  obtain ⟨h, hend⟩ := (InOrder.new capacity).after (Asking.new capacity) hopen
  refine ⟨(GateRun.new capacity).after_table batches, h.served, h.before, fun hw => ?_,
    hend.turnOver_empties⟩
  refine ⟨hend.none_free hw, hend.gathered_tail, ?_⟩
  obtain ⟨c, hc⟩ := List.exists_mem_of_ne_nil _ (hend.holding_ne_nil hw)
  exact ⟨c, hc, h.owners c hc⟩

/-- A drain waits for two tickets, and a third, asked for later, waits behind the drain although
enough would be free for it; a call between them was given up. -/
theorem served_in_order_behind_drain :
    let r := (GateRun.new .standard).after
      [[.request "a" .ticket, .request "b" .ticket], [.request "drain" .everything],
        [.request "gone" .everything, .request "late" .ticket], [.abandon "gone", .release "a"]]
    (∀ batch ∈ [[GateMove.request "a" .ticket, .request "b" .ticket],
        [.request "drain" .everything], [.request "gone" .everything, .request "late" .ticket],
        [.abandon "gone", .release "a"]], GateMove.cancel ∉ batch) ∧
      r.table.waiting.map (·.name) = ["drain", "late"] ∧
      r.table.gate.permits.free = 0 ∧
      (turnOver^[2] r.table).waiting = [] := by
  have hopen : ∀ batch ∈ [[GateMove.request "a" .ticket, .request "b" .ticket],
      [.request "drain" .everything], [.request "gone" .everything, .request "late" .ticket],
      [.abandon "gone", .release "a"]], GateMove.cancel ∉ batch := by decide
  obtain ⟨-, -, -, hidle, hturn⟩ := served_in_order .standard _ hopen
  exact ⟨hopen, by decide, (hidle (by decide)).1, hturn⟩

end GateRun

end WorkBundle
