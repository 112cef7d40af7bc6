import WorkBundle.Proofs.Effects

/-!
# What aggregators come to

The aggregator of a name is the fold of all values added under the name: only the uses of that name
touch it (`Scope.get?_useAll`). If all of them name one combiner, their order does not matter,
since every combiner is commutative (`get?_useAll_perm`).
-/

set_option autoImplicit false

namespace WorkBundle

theorem Combiner.combine_right_comm (c : Combiner) (a v w : Int64) :
    c.combine (c.combine a v) w = c.combine (c.combine a w) v := by
  cases c with
  | sum => simp only [combine, Int64.add_assoc, Int64.add_comm v w]
  | min | max =>
    simp only [combine]
    grind

theorem Aggregator.add_right_comm (a : Aggregator) (v w : Int64) :
    (a.add v).add w = (a.add w).add v := by
  simp only [add, Combiner.combine_right_comm a.combiner a.value v w]

namespace Aggregators

/-! ## The registry -/

/-- Every registered name leads to an aggregator, and no two names lead to the same. -/
structure Sound (r : Aggregators) : Prop where
  valid : ∀ name h, r.find? name = some h → h < r.cells.length
  apart : ∀ name name' h, r.find? name = some h → r.find? name' = some h → name = name'

theorem sound_empty : ({} : Aggregators).Sound := by
  constructor
  · intro name h hfind
    cases hfind
  · intro name name' h hfind
    cases hfind

variable {r : Aggregators} {name : String} {h : Handle}

def register (r : Aggregators) (name : String) (combiner : Combiner) : Aggregators :=
  { cells := r.cells ++ [.fresh name combiner], index := r.index ++ [(name, r.cells.length)] }

theorem getOrCreate_of_some (hfind : r.find? name = some h) (combiner : Combiner) :
    r.getOrCreate name combiner = (h, r) := by
  simp only [getOrCreate, hfind]

theorem getOrCreate_of_none (hfind : r.find? name = none) (combiner : Combiner) :
    r.getOrCreate name combiner = (r.cells.length, r.register name combiner) := by
  simp only [getOrCreate, hfind, create, register]

theorem find?_register (hnone : r.find? name = none) (combiner : Combiner) (name' : String) :
    (r.register name combiner).find? name' =
      if name' = name then some r.cells.length else r.find? name' := by
  rw [find?, register, List.lookup_append]
  by_cases heq : name' = name
  · subst heq
    rw [find?] at hnone
    simp [hnone]
  · have hne : (name' == name) = false := by simpa using heq
    rw [List.lookup_cons, hne, if_neg heq, find?]
    simp

theorem Sound.register (hr : r.Sound) (hnone : r.find? name = none) (combiner : Combiner) :
    (r.register name combiner).Sound := by
  constructor
  · intro name' h' hfind
    rw [find?_register hnone] at hfind
    rw [Aggregators.register, List.length_append, List.length_singleton]
    split at hfind
    · cases hfind
      exact Nat.lt_succ_self _
    · exact Nat.lt_succ_of_lt (hr.valid name' h' hfind)
  · intro name₁ name₂ h' h₁ h₂
    rw [find?_register hnone] at h₁ h₂
    split at h₁ <;> split at h₂
    · rw [‹name₁ = name›, ‹name₂ = name›]
    -- The new handle is none of the old ones.
    · cases h₁
      exact absurd (hr.valid _ _ h₂) (Nat.lt_irrefl _)
    · cases h₂
      exact absurd (hr.valid _ _ h₁) (Nat.lt_irrefl _)
    · exact hr.apart _ _ _ h₁ h₂

theorem get?_register (hr : r.Sound) (hnone : r.find? name = none) (combiner : Combiner)
    (name' : String) :
    (r.register name combiner).get? name' =
      if name' = name then some (.fresh name combiner) else r.get? name' := by
  rw [get?, find?_register hnone]
  split
  · simp [read?, register]
  · cases hfind : r.find? name' with
    | none => simp [get?, hfind]
    | some h' =>
      have hlt := hr.valid name' h' hfind
      simp [get?, hfind, read?, register, List.getElem?_append_left hlt]

/-- Whoever asks for a name gets a handle that leads to the aggregator of the name; all others stay.
-/
theorem getOrCreate_spec (hr : r.Sound) (name : String) (combiner : Combiner) :
    ∃ h r', r.getOrCreate name combiner = (h, r') ∧ r'.Sound ∧ r'.find? name = some h ∧
      ∀ name', r'.get? name' =
        if name' = name then some ((r.get? name).getD (.fresh name combiner)) else r.get? name' := by
  cases hfind : r.find? name with
  | some h =>
    refine ⟨h, r, getOrCreate_of_some hfind combiner, hr, hfind, ?_⟩
    intro name'
    split
    · have hlt := hr.valid name h hfind
      simp [‹name' = name›, get?, hfind, read?, hlt]
    · rfl
  | none =>
    refine ⟨_, _, getOrCreate_of_none hfind combiner, hr.register hfind combiner, ?_, ?_⟩
    · rw [find?_register hfind, if_pos rfl]
    · intro name'
      have hnone : r.get? name = none := by rw [get?, hfind]; rfl
      rw [get?_register hr hfind, hnone, Option.getD_none]

/-! ## Additions -/

theorem Sound.add (hr : r.Sound) (h : Handle) (v : Int64) : (r.add h v).Sound := by
  refine ⟨fun name h' hfind => ?_, hr.apart⟩
  rw [Aggregators.add, List.length_modify]
  exact hr.valid name h' hfind

theorem get?_add (hr : r.Sound) (hfind : r.find? name = some h) (v : Int64) (name' : String) :
    (r.add h v).get? name' =
      if name' = name then (r.get? name').map (·.add v) else r.get? name' := by
  have hsame : (r.add h v).find? name' = r.find? name' := rfl
  rw [get?, hsame, get?]
  split
  · rw [‹name' = name›, hfind]
    simp [read?, add]
  · cases hfind' : r.find? name' with
    | none => rfl
    | some h' =>
      have hne : h ≠ h' := by
        rintro rfl
        exact absurd (hr.apart _ _ _ hfind' hfind) ‹¬ name' = name›
      simp [read?, add, hne]

end Aggregators

/-! ## Uses -/

/-- The aggregator of a name after a use of the name, where `none` stands for a name that nobody has
asked for. -/
def Use.onto (a : Option Aggregator) (u : Use) : Option Aggregator :=
  let found := a.getD (.fresh u.name u.combiner)
  some (u.value.elim found found.add)

/-- Two uses of a name can change places if they name one combiner. With two combiners they cannot:
the first use decides for all. -/
theorem Use.onto_right_comm {u v : Use} (hname : u.name = v.name)
    (hcombiner : u.combiner = v.combiner) (a : Option Aggregator) :
    v.onto (u.onto a) = u.onto (v.onto a) := by
  simp only [onto, Option.getD_some, hname, hcombiner]
  cases u.value <;> cases v.value <;> simp [Aggregator.add_right_comm]

/-- Every name is used with one combiner. -/
def Agree (us : List Use) : Prop :=
  ∀ u ∈ us, ∀ v ∈ us, u.name = v.name → u.combiner = v.combiner

instance (us : List Use) : Decidable (Agree us) :=
  inferInstanceAs (Decidable (∀ u ∈ us, ∀ v ∈ us, u.name = v.name → u.combiner = v.combiner))

namespace Scope

variable {s : Scope}

theorem use_spec (hs : s.aggregators.Sound) (u : Use) :
    (s.use u).aggregators.Sound ∧ ∀ name, (s.use u).aggregators.get? name =
      if name = u.name then u.onto (s.aggregators.get? name) else s.aggregators.get? name := by
  obtain ⟨h, r, hget, hr, hfind, hread⟩ :=
    Aggregators.getOrCreate_spec hs u.name u.combiner
  cases hvalue : u.value with
  | none =>
    have huse : (s.use u).aggregators = r := by simp only [use, hvalue, aggregatorOf, hget]
    rw [huse]
    refine ⟨hr, fun name => ?_⟩
    rw [hread]
    split
    · simp [Use.onto, hvalue, ‹name = u.name›]
    · rfl
  | some v =>
    have huse : (s.use u).aggregators = r.add h v := by simp only [use, hvalue, addTo, hget]
    rw [huse]
    refine ⟨hr.add h v, fun name => ?_⟩
    rw [Aggregators.get?_add hr hfind, hread]
    split
    · simp [Use.onto, hvalue, ‹name = u.name›]
    · rfl

theorem get?_useAll (hs : s.aggregators.Sound) (us : List Use) (name : String) :
    (s.useAll us).aggregators.get? name =
      (us.filter (name = ·.name)).foldl Use.onto (s.aggregators.get? name) := by
  induction us generalizing s with
  | nil => rfl
  | cons u us ih =>
    obtain ⟨hsound, hget⟩ := use_spec hs u
    show ((s.use u).useAll us).aggregators.get? name = _
    rw [ih hsound, hget]
    by_cases hname : name = u.name <;> simp [hname]

/-- If the uses `Agree`, their order does not matter. Results on schedules come down to this, since
a schedule permutes the uses of different workers. -/
theorem get?_useAll_perm (hs : s.aggregators.Sound) {us vs : List Use} (hperm : us.Perm vs)
    (hagree : Agree us) (name : String) :
    (s.useAll us).aggregators.get? name = (s.useAll vs).aggregators.get? name := by
  rw [get?_useAll hs, get?_useAll hs]
  refine (hperm.filter _).foldl_eq' (fun u hu v hv a => ?_) _
  obtain ⟨hu, hname⟩ := List.mem_filter.mp hu
  obtain ⟨hv, hname'⟩ := List.mem_filter.mp hv
  have heq : u.name = v.name := by
    rw [decide_eq_true_eq] at hname hname'
    rw [← hname, ← hname']
  exact Use.onto_right_comm heq (hagree u hu v hv heq) a

end Scope

end WorkBundle
