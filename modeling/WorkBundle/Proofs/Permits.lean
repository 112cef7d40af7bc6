import WorkBundle.Permits

/-!
# No permit is lost or made in the queue

Every operation on `Permits` moves permits between three places: free, gathered by a claim that
still lacks some, and granted to a claim that has all. `Permits.total` counts all three, and each
operation below changes it by exactly what came in or was taken away. What is claimed is tracked
beside it (`Permits.demands`), up to order, since dealing moves a claim from the waiting to the
granted.

`Permits.Sound` is the shape that dealing keeps: a claim waits only while it lacks something, and
nothing is free while a claim waits.
-/

set_option autoImplicit false

namespace WorkBundle

variable {ι : Type}

namespace PermitClaim

def demand (c : PermitClaim ι) : ι × Nat := (c.id, c.need)

@[simp] theorem full_got (c : PermitClaim ι) : c.full.got = c.need := rfl
@[simp] theorem full_demand (c : PermitClaim ι) : c.full.demand = c.demand := rfl

end PermitClaim

def gatheredBy (cs : List (PermitClaim ι)) : Nat := cs.foldr (fun c n => c.got + n) 0

@[simp] theorem gatheredBy_nil : gatheredBy ([] : List (PermitClaim ι)) = 0 := rfl

@[simp] theorem gatheredBy_cons (c : PermitClaim ι) (cs : List (PermitClaim ι)) :
    gatheredBy (c :: cs) = c.got + gatheredBy cs := rfl

theorem gatheredBy_eq_zero {cs : List (PermitClaim ι)} (h : ∀ c ∈ cs, c.got = 0) :
    gatheredBy cs = 0 := by
  induction cs with
  | nil => rfl
  | cons c cs ih =>
    obtain ⟨hc, hcs⟩ := List.forall_mem_cons.mp h
    rw [gatheredBy_cons, hc, ih hcs]

@[simp] theorem gatheredBy_append (cs ds : List (PermitClaim ι)) :
    gatheredBy (cs ++ ds) = gatheredBy cs + gatheredBy ds := by
  induction cs with
  | nil => simp
  | cons c cs ih =>
    rw [List.cons_append, gatheredBy_cons, gatheredBy_cons, ih, Nat.add_assoc]

theorem gatheredBy_filter (p : PermitClaim ι → Bool) (cs : List (PermitClaim ι)) :
    gatheredBy (cs.filter p) + gatheredBy (cs.filter (!p ·)) = gatheredBy cs := by
  induction cs with
  | nil => rfl
  | cons c cs ih =>
    cases h : p c
    · simp only [List.filter_cons, h, Bool.not_false, if_true, gatheredBy_cons,
        Bool.false_eq_true, if_false]
      omega
    · simp only [List.filter_cons, h, Bool.not_true, if_true, gatheredBy_cons,
        Bool.false_eq_true, if_false]
      omega

/-! ## Dealing -/

/-- A line in which everyone still lacks something. Dealing serves whoever it can, so what is left
of a line is of this kind (`deal_lacking`). -/
def AllLacking (cs : List (PermitClaim ι)) : Prop := ∀ c ∈ cs, c.got < c.need

theorem deal_served_full (n : Nat) (cs : List (PermitClaim ι)) :
    ∀ c ∈ (deal n cs).served, c.got = c.need := by
  induction cs generalizing n with
  | nil => simp [deal]
  | cons c cs ih =>
    unfold deal
    split
    · intro d hd
      rcases List.mem_cons.mp hd with rfl | hd
      · rfl
      · exact ih _ d hd
    · simp

theorem deal_lacking {n : Nat} {cs : List (PermitClaim ι)} (h : AllLacking cs) :
    AllLacking (deal n cs).lacking := by
  induction cs generalizing n with
  | nil => simp [deal, AllLacking]
  | cons c cs ih =>
    have hc : c.got < c.need := h c List.mem_cons_self
    have hcs : AllLacking cs := fun d hd => h d (List.mem_cons_of_mem _ hd)
    unfold deal
    split
    · exact ih hcs
    · rename_i hn
      intro d hd
      rcases List.mem_cons.mp hd with rfl | hd
      · simp only [PermitClaim.missing] at hn ⊢
        omega
      · exact hcs d hd

/-- Nothing is left over while somebody lacks something. So a free permit and a waiting claim
exclude each other, which is `Sound.none_free`. -/
theorem deal_left {n : Nat} {cs : List (PermitClaim ι)} (h : (deal n cs).lacking ≠ []) :
    (deal n cs).left = 0 := by
  induction cs generalizing n with
  | nil => simp [deal] at h
  | cons c cs ih =>
    unfold deal at h ⊢
    split
    · rename_i hn
      rw [if_pos hn] at h
      exact ih h
    · rfl

/-- Dealing keeps the line, served and lacking together: who was before whom stays so, with what
each has claimed. -/
theorem deal_demand (n : Nat) (cs : List (PermitClaim ι)) :
    ((deal n cs).served ++ (deal n cs).lacking).map PermitClaim.demand =
      cs.map PermitClaim.demand := by
  induction cs generalizing n with
  | nil => rfl
  | cons c cs ih =>
    unfold deal
    split
    · simp only [List.cons_append, List.map_cons, PermitClaim.full_demand, ih]
    · rfl

/-- What was dealt has gone to a claim or is left. This is the conservation of permits, from which
those at all gates are derived. -/
theorem deal_total {n : Nat} {cs : List (PermitClaim ι)} (h : AllLacking cs) :
    (deal n cs).left + gatheredBy (deal n cs).served + gatheredBy (deal n cs).lacking =
      n + gatheredBy cs := by
  induction cs generalizing n with
  | nil => simp [deal]
  | cons c cs ih =>
    have hc : c.got < c.need := h c List.mem_cons_self
    have hcs : AllLacking cs := fun d hd => h d (List.mem_cons_of_mem _ hd)
    unfold deal
    split
    · rename_i hn
      have := ih (n := n - c.missing) hcs
      simp only [PermitClaim.missing] at hn this ⊢
      simp only [gatheredBy_cons, PermitClaim.full_got]
      omega
    · simp only [gatheredBy_nil, gatheredBy_cons]
      omega

theorem deal_zero {cs : List (PermitClaim ι)} (h : AllLacking cs) : deal 0 cs = ⟨0, [], cs⟩ := by
  cases cs with
  | nil => rfl
  | cons c cs =>
    have hc : c.got < c.need := h c List.mem_cons_self
    unfold deal
    rw [if_neg (by simp only [PermitClaim.missing]; omega)]
    rfl

/-- A line in which at most the first has gathered anything. It is what "the oldest claim is served
first" comes to between two releases. -/
def OnlyFirst (cs : List (PermitClaim ι)) : Prop := ∀ c ∈ cs.tail, c.got = 0

theorem OnlyFirst.deal {n : Nat} {cs : List (PermitClaim ι)} (h : OnlyFirst cs) :
    OnlyFirst (deal n cs).lacking := by
  induction cs generalizing n with
  | nil => exact h
  | cons c cs ih =>
    unfold WorkBundle.deal
    split
    · exact ih fun d hd => h d (List.mem_of_mem_tail hd)
    · exact h

theorem OnlyFirst.filter {cs : List (PermitClaim ι)} (h : OnlyFirst cs)
    (p : PermitClaim ι → Bool) : OnlyFirst (cs.filter p) := by
  cases cs with
  | nil => exact h
  | cons c cs =>
    intro d hd
    rw [List.filter_cons] at hd
    split at hd
    · exact h d (List.mem_filter.mp hd).1
    · exact h d (List.mem_filter.mp (List.mem_of_mem_tail hd)).1

theorem OnlyFirst.append {cs : List (PermitClaim ι)} (h : OnlyFirst cs) {c : PermitClaim ι}
    (hc : c.got = 0) : OnlyFirst (cs ++ [c]) := by
  cases cs with
  | nil => intro d hd; cases hd
  | cons b cs =>
    intro d hd
    rcases List.mem_append.mp hd with hd | hd
    · exact h d hd
    · rw [List.mem_singleton.mp hd, hc]

namespace Permits

/-! ## What is counted -/

/-- All permits that nobody has taken away: free, gathered, and granted. A claim that is granted
holds its permits still within `Permits` until it collects them. -/
def total (p : Permits ι) : Nat := p.free + gatheredBy p.waiting + gatheredBy p.granted

def demands (p : Permits ι) : List (ι × Nat) := (p.waiting ++ p.granted).map PermitClaim.demand

/-- The shape that dealing keeps: waiting claims lack something, granted ones have all, and while
somebody waits nothing is free. -/
structure Sound (p : Permits ι) : Prop where
  lacking : AllLacking p.waiting
  full : ∀ c ∈ p.granted, c.got = c.need
  none_free : p.waiting ≠ [] → p.free = 0

theorem sound_new (n : Nat) : Sound ({ free := n } : Permits ι) where
  lacking := by simp [AllLacking]
  full := by simp
  none_free := by simp

/-! ## Permits come back -/

theorem Sound.release {p : Permits ι} (h : p.Sound) (n : Nat) : (p.release n).Sound where
  lacking := deal_lacking h.lacking
  full := by
    intro c hc
    rcases List.mem_append.mp hc with hc | hc
    · exact h.full c hc
    · exact deal_served_full n p.waiting c hc
  none_free := by
    intro hl
    have hw : p.waiting ≠ [] := by
      intro hw
      simp [Permits.release, hw, deal] at hl
    have hd : (deal n p.waiting).left = 0 := deal_left hl
    show p.free + (deal n p.waiting).left = 0
    rw [h.none_free hw, hd]

theorem total_release {p : Permits ι} (h : AllLacking p.waiting) (n : Nat) :
    (p.release n).total = p.total + n := by
  have := deal_total (n := n) h
  simp only [total, release, gatheredBy_append]
  omega

theorem demands_release (p : Permits ι) (n : Nat) : (p.release n).demands.Perm p.demands := by
  have hline := deal_demand n p.waiting
  rw [List.map_append] at hline
  simp only [demands, release, List.map_append]
  rw [← hline]
  refine List.perm_append_comm.trans ?_
  rw [List.append_assoc]
  exact List.perm_append_comm

/-! ## A claim joins -/

private theorem allLacking_append {cs : List (PermitClaim ι)} (h : AllLacking cs) {id : ι}
    {need : Nat} (hneed : 0 < need) : AllLacking (cs ++ [⟨id, need, 0⟩]) := by
  intro c hc
  rcases List.mem_append.mp hc with hc | hc
  · exact h c hc
  · rcases List.mem_singleton.mp hc with rfl
    exact hneed

theorem Sound.join {p : Permits ι} (h : p.Sound) (id : ι) {need : Nat} (hneed : 0 < need) :
    (p.join id need).Sound := by
  refine Sound.release ?_ p.free
  exact ⟨allLacking_append h.lacking hneed, h.full, fun _ => rfl⟩

theorem total_join {p : Permits ι} (h : p.Sound) (id : ι) {need : Nat} (hneed : 0 < need) :
    (p.join id need).total = p.total := by
  unfold join
  rw [total_release (allLacking_append h.lacking hneed)]
  simp only [total, gatheredBy_append, gatheredBy_cons, gatheredBy_nil]
  omega

theorem demands_join (p : Permits ι) (id : ι) (need : Nat) :
    (p.join id need).demands.Perm ((id, need) :: p.demands) := by
  refine (demands_release _ _).trans ?_
  simp only [demands, List.map_append, List.append_assoc, List.map_cons,
    List.singleton_append]
  exact List.perm_middle

section

variable [DecidableEq ι]

/-! ## A claim is given up -/

theorem Sound.leave {p : Permits ι} (h : p.Sound) (id : ι) : (p.leave id).Sound := by
  refine Sound.release ⟨?_, ?_, ?_⟩ _
  · exact fun c hc => h.lacking c ((List.mem_filter.mp hc).1)
  · exact fun c hc => h.full c ((List.mem_filter.mp hc).1)
  · intro hw
    exact h.none_free fun hn => hw (by simp [hn])

/-- Who gives up keeps nothing: what the claim had gathered goes to the others. -/
theorem total_leave {p : Permits ι} (h : p.Sound) (id : ι) : (p.leave id).total = p.total := by
  have hl : AllLacking (p.waiting.filter (·.id != id)) :=
    fun c hc => h.lacking c ((List.mem_filter.mp hc).1)
  have hw := gatheredBy_filter (·.id == id) p.waiting
  have hg := gatheredBy_filter (·.id == id) p.granted
  have hgathered : p.gathered id = gatheredBy (p.waiting.filter (·.id == id)) +
      gatheredBy (p.granted.filter (·.id == id)) := by
    rw [← gatheredBy_append, ← List.filter_append]
    rfl
  unfold leave
  rw [total_release hl, hgathered]
  simp only [total, bne]
  omega

theorem demands_leave (p : Permits ι) (id : ι) :
    (p.leave id).demands.Perm (p.demands.filter (·.1 != id)) := by
  refine (demands_release _ _).trans ?_
  simp only [demands, List.map_append, List.filter_append, List.filter_map]
  exact List.Perm.refl _

/-! ## A claim is collected -/

theorem Sound.collect {p : Permits ι} (h : p.Sound) (id : ι) : (p.collect id).Sound where
  lacking := h.lacking
  full := fun c hc => h.full c ((List.mem_filter.mp hc).1)
  none_free := h.none_free

theorem claims_eq_any_demands (p : Permits ι) (id : ι) :
    p.claims id = p.demands.any (·.1 == id) := by
  simp only [claims, demands, List.map_append, List.any_append, List.any_map]
  rfl

theorem claims_release (p : Permits ι) (n : Nat) (id : ι) :
    (p.release n).claims id = p.claims id := by
  rw [claims_eq_any_demands, claims_eq_any_demands]
  exact (p.demands_release n).any_eq

/-- Whose only claim is granted takes away exactly what it asked for. Two claims of one identity
would be collected together, which is why there must be one. -/
theorem total_collect {p : Permits ι} (h : p.Sound) {id : ι} {need : Nat}
    (hone : p.demands.filter (·.1 == id) = [(id, need)]) (hgranted : p.isGranted id) :
    (p.collect id).total + need = p.total := by
  obtain ⟨c, hc, hid⟩ := List.any_eq_true.mp hgranted
  have hmem : c ∈ p.granted.filter (·.id == id) := List.mem_filter.mpr ⟨hc, hid⟩
  -- The claim stands among the granted, so the one demand of `id` is counted there.
  have hline : (p.waiting.filter (·.id == id) ++ p.granted.filter (·.id == id)).map
      PermitClaim.demand = [(id, need)] := by
    rw [← hone, demands, List.filter_map, List.filter_append]
    rfl
  have hgot : gatheredBy (p.granted.filter (·.id == id)) = need := by
    obtain ⟨cs, ds, hsplit⟩ := List.append_of_mem hmem
    rw [hsplit] at hline ⊢
    have hlen := congrArg List.length hline
    simp only [List.length_map, List.length_append, List.length_cons, List.length_nil] at hlen
    have hcs : cs = [] := List.length_eq_zero_iff.mp (by omega)
    have hds : ds = [] := List.length_eq_zero_iff.mp (by omega)
    have hw : p.waiting.filter (·.id == id) = [] := List.length_eq_zero_iff.mp (by omega)
    rw [hw, hcs, hds] at hline
    simp only [List.nil_append, List.map_cons, List.map_nil, List.cons.injEq, and_true,
      PermitClaim.demand, Prod.mk.injEq] at hline
    rw [hcs, hds, List.nil_append, gatheredBy_cons, h.full c hc, hline.2]
    rfl
  have hg := gatheredBy_filter (·.id == id) p.granted
  simp only [total, collect, bne]
  omega

theorem demands_collect (p : Permits ι) (id : ι) :
    (p.collect id).demands = (p.waiting.map PermitClaim.demand) ++
      (p.granted.map PermitClaim.demand).filter (·.1 != id) := by
  simp only [demands, collect, List.map_append, List.filter_map]
  rfl

/-! ## The order of the line

Who joined earlier stands before who joined later, granted or not, and gathers first. -/

/-- The identities in the line, the oldest first. Granted claims come before waiting ones, since
only the front of the line is ever granted. -/
def line (p : Permits ι) : List ι := (p.granted ++ p.waiting).map (·.id)

omit [DecidableEq ι] in
theorem line_release (p : Permits ι) (n : Nat) : (p.release n).line = p.line := by
  have hdeal := congrArg (List.map Prod.fst) (deal_demand n p.waiting)
  rw [List.map_map, List.map_map] at hdeal
  simp only [line, release, List.append_assoc, List.map_append] at hdeal ⊢
  exact congrArg (p.granted.map (·.id) ++ ·) hdeal

omit [DecidableEq ι] in
theorem line_join (p : Permits ι) (id : ι) (need : Nat) :
    (p.join id need).line = p.line ++ [id] := by
  rw [join, line_release]
  simp [line]

theorem line_leave (p : Permits ι) (id : ι) : (p.leave id).line = p.line.filter (· != id) := by
  rw [leave, line_release]
  simp only [line, List.filter_map, ← List.filter_append]
  rfl

theorem claims_iff_mem_line (p : Permits ι) (id : ι) : p.claims id = true ↔ id ∈ p.line := by
  simp [claims, line, or_comm]

omit [DecidableEq ι] in
/-- While somebody waits, whoever joins gathers nothing and grants nothing. -/
theorem granted_join {p : Permits ι} (h : p.Sound) (hw : p.waiting ≠ []) (id : ι) {need : Nat}
    (hneed : 0 < need) : (p.join id need).granted = p.granted := by
  have hline : AllLacking (p.waiting ++ [⟨id, need, 0⟩]) := allLacking_append h.lacking hneed
  unfold join release
  rw [h.none_free hw, deal_zero hline]
  exact List.append_nil _

/-- If anybody is granted, the first in the line is; once it collects, the others remain. -/
theorem first_granted {p : Permits ι} {id : ι} {q : List ι} (hline : p.line = id :: q)
    (hn : p.line.Nodup) (hg : p.granted ≠ []) :
    p.isGranted id = true ∧ (p.collect id).line = q := by
  obtain ⟨c, gs, hcs⟩ := List.exists_cons_of_ne_nil hg
  rw [hline] at hn
  simp only [line, hcs, List.cons_append, List.map_cons, List.cons.injEq] at hline
  obtain ⟨rfl, rfl⟩ := hline
  have hgs : gs.filter (·.id != c.id) = gs := by
    refine List.filter_eq_self.mpr fun d hd => ?_
    have hne : d.id ≠ c.id := fun h => (List.nodup_cons.mp hn).1
      (h ▸ List.mem_map_of_mem (List.mem_append_left _ hd))
    simpa using hne
  exact ⟨by simp [isGranted, hcs], by simp [line, collect, hcs, hgs]⟩

end

end Permits

end WorkBundle
