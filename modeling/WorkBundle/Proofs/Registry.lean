import Mathlib.Algebra.GroupWithZero.Nat
import Mathlib.Algebra.Ring.Int.Defs
import WorkBundle.Proofs.Runs
import WorkBundle.Proofs.Totals

/-!
# A registry in use

Any number of users share a registry of aggregators. They ask for names, look names up, make
aggregators of their own that no name leads to, and add values through the handles they have
obtained. Each of these calls is one step, and the steps come in any order. `RegistryUse` is a
registry with the handles that were obtained and the values that were added so far.

A handle comes with its `Origin`, which says what it was obtained for: a name, or nothing but
itself. The registry knows nothing of origins. It does its work if two handles are the same
aggregator exactly when they have one origin, and if the value of an aggregator is what was added
through the handles of its origin, whoever added it and when (`Kept`).
-/

set_option autoImplicit false

namespace WorkBundle

/-! ## What values come to -/

namespace Combiner

/-- The values end in `x`: it is one of them, and before all others. Without values the end is the
bound, which is the `unit` of the combiner. -/
def IsEnd (before : Int64 → Int64 → Prop) (bound : Int64) (vs : List Int64) (x : Int64) : Prop :=
  (vs = [] → x = bound) ∧ (vs ≠ [] → x ∈ vs) ∧ ∀ v ∈ vs, before x v

/-- What an aggregator has to say after these additions, in whatever order they were made. A `sum`
is taken in the integers and brought into 64 bits at the end. -/
def Totals (vs : List Int64) (x : Int64) : Combiner → Prop
  | .sum => x.toInt = (vs.map Int64.toInt).sum.bmod (2 ^ 64)
  | .min => IsEnd (fun a b => a ≤ b) .maxValue vs x
  | .max => IsEnd (fun a b => b ≤ a) .minValue vs x

def fold (c : Combiner) (vs : List Int64) : Int64 := vs.foldl c.combine c.unit

theorem fold_concat (c : Combiner) (vs : List Int64) (v : Int64) :
    c.fold (vs ++ [v]) = c.combine (c.fold vs) v := by
  simp [fold]

theorem fold_perm (c : Combiner) {vs ws : List Int64} (h : vs.Perm ws) : c.fold vs = c.fold ws := by
  apply h.foldl_eq'
  intro v _ w _ a
  exact c.combine_right_comm a v w

theorem combine_min (a b : Int64) :
    min.combine a b ≤ a ∧ min.combine a b ≤ b ∧ (min.combine a b = a ∨ min.combine a b = b) := by
  simp only [combine, Int64.le_iff_toInt_le, Int64.lt_iff_toInt_lt]
  split <;> simp <;> omega

theorem combine_max (a b : Int64) :
    a ≤ max.combine a b ∧ b ≤ max.combine a b ∧ (max.combine a b = a ∨ max.combine a b = b) := by
  simp only [combine, Int64.le_iff_toInt_le, Int64.lt_iff_toInt_lt]
  split <;> simp <;> omega

theorem IsEnd.concat {before : Int64 → Int64 → Prop} {bound x y v : Int64} {vs : List Int64}
    (htrans : ∀ a b c, before a b → before b c → before a c)
    (hantisymm : ∀ a b, before a b → before b a → a = b) (hbound : ∀ a, before a bound)
    (h : IsEnd before bound vs x) (hx : before y x) (hv : before y v) (hy : y = x ∨ y = v) :
    IsEnd before bound (vs ++ [v]) y := by
  obtain ⟨hnone, hmem, hbefore⟩ := h
  refine ⟨by simp, fun _ => ?_, ?_⟩
  · by_cases hvs : vs = []
    · -- If the first value does not show, it is the bound itself.
      have hyv : y = v := by
        rcases hy with hy | hy
        · rw [hnone hvs] at hy
          exact hantisymm y v hv (hy ▸ hbound v)
        · exact hy
      simp [hyv]
    · rcases hy with hy | hy
      · simp [hy, hmem hvs]
      · simp [hy]
  · intro w hw
    rcases List.mem_append.mp hw with hw | hw
    · exact htrans y x w hx (hbefore w hw)
    · rw [List.mem_singleton.mp hw]
      exact hv

theorem Totals.concat {c : Combiner} {vs : List Int64} {x : Int64} (h : c.Totals vs x)
    (v : Int64) : c.Totals (vs ++ [v]) (c.combine x v) := by
  cases c with
  | sum =>
    have hx : x.toInt = (vs.map Int64.toInt).sum.bmod (2 ^ 64) := h
    simp only [Totals, combine, Int64.toInt_add, List.map_append, List.map_cons, List.map_nil,
      List.sum_append, List.sum_cons, List.sum_nil, Int.add_zero, hx, Int.bmod_add_bmod]
  | min =>
    have hend : IsEnd (fun a b => a ≤ b) .maxValue vs x := h
    obtain ⟨hx, hv, hy⟩ := combine_min x v
    exact hend.concat (fun _ _ _ => Int64.le_trans) (fun _ _ => Int64.le_antisymm)
      Int64.le_maxValue hx hv hy
  | max =>
    have hend : IsEnd (fun a b => b ≤ a) .minValue vs x := h
    obtain ⟨hx, hv, hy⟩ := combine_max x v
    have htrans (a b w : Int64) (hab : b ≤ a) (hbw : w ≤ b) : w ≤ a := Int64.le_trans hbw hab
    have hantisymm (a b : Int64) (hab : b ≤ a) (hba : a ≤ b) : a = b := Int64.le_antisymm hba hab
    exact hend.concat htrans hantisymm Int64.minValue_le hx hv hy

theorem totals_fold (c : Combiner) (vs : List Int64) : c.Totals vs (c.fold vs) := by
  induction vs using List.reverseRecOn with
  | nil =>
    cases c with
    | sum => rfl
    | min | max => simp [Totals, IsEnd, fold, unit]
  | append_singleton vs v ih =>
    rw [fold_concat]
    exact ih.concat v

end Combiner

/-! ## Calls to a registry -/

/-- What a handle was obtained for. Two handles are the same aggregator just if they have the same
origin; one of `make` is `alone`. -/
inductive Origin where
  | named (name : String)
  /-- For itself: it was the handle of this number, and new. -/
  | alone (number : Nat)
  deriving DecidableEq, Repr

/-- A call to the registry, or to an aggregator. Each is one step, since the registry is locked for
the whole of `getOrCreate`, and an addition is a single operation on the value. -/
inductive RegistryMove where
  /-- Asks for a name, to be registered with this combiner if need be. -/
  | ask (name : String) (combiner : Combiner)
  | look (name : String)
  | make (name : String) (combiner : Combiner)
  /-- Adds a value through the handle that was obtained as this one in turn. -/
  | add (number : Nat) (value : Int64)
  deriving DecidableEq, Repr

/-- A registry in use. Besides `registry` it keeps what the users know: their handles and what they
did with them. -/
structure RegistryUse where
  registry : Aggregators := {}
  /-- The handles that were obtained, each with what it was obtained for; the place of a handle is
  its number. -/
  obtained : List (Origin × Handle) := []
  /-- The names that were asked for, each with the combiner that the caller had in mind. -/
  asked : List (String × Combiner) := []
  /-- The values that were added, each with the origin of the handle through which it was. -/
  added : List (Origin × Int64) := []
  deriving DecidableEq, Repr

namespace RegistryUse

/-- What a call does, if it can be made: nobody adds through a handle that is not in `obtained`. -/
def step (u : RegistryUse) : RegistryMove → Option RegistryUse
  | .ask name combiner =>
    let (h, registry) := u.registry.getOrCreate name combiner
    some { u with
      registry
      obtained := u.obtained ++ [(.named name, h)]
      asked := u.asked ++ [(name, combiner)] }
  | .look name =>
    match u.registry.find? name with
    | some h => some { u with obtained := u.obtained ++ [(.named name, h)] }
    | none => some u
  | .make name combiner =>
    let (h, registry) := u.registry.create name combiner
    some { u with registry, obtained := u.obtained ++ [(.alone u.obtained.length, h)] }
  | .add number v =>
    match u.obtained[number]? with
    | some (o, h) =>
      some { u with registry := u.registry.add h v, added := u.added ++ [(o, v)] }
    | none => none

def run (u : RegistryUse) (moves : List RegistryMove) : Option RegistryUse := moves.foldlM step u

def askedIn (moves : List RegistryMove) : List (String × Combiner) :=
  moves.filterMap fun
    | .ask name combiner => some (name, combiner)
    | _ => none

/-- The values that were added through the handles of an origin, oldest first; the order is there to
be forgotten by `Totals`. -/
def addedTo (u : RegistryUse) (o : Origin) : List Int64 :=
  (u.added.filter (·.1 = o)).map (·.2)

/-- What a call can be, with one case for each way it can come out. This is `step` without its
tests, and the invariant `Kept` is proved by it. -/
inductive Stepped (u : RegistryUse) : RegistryMove → RegistryUse → Prop
  | known {name : String} {h : Handle} (found : u.registry.find? name = some h) (c : Combiner) :
      Stepped u (.ask name c)
        { u with obtained := u.obtained ++ [(.named name, h)], asked := u.asked ++ [(name, c)] }
  | registered {name : String} (missing : u.registry.find? name = none) (c : Combiner) :
      Stepped u (.ask name c)
        { u with
          registry := u.registry.register name c
          obtained := u.obtained ++ [(.named name, u.registry.cells.length)]
          asked := u.asked ++ [(name, c)] }
  | found {name : String} {h : Handle} (found : u.registry.find? name = some h) :
      Stepped u (.look name) { u with obtained := u.obtained ++ [(.named name, h)] }
  | missed {name : String} (missing : u.registry.find? name = none) : Stepped u (.look name) u
  | made (name : String) (c : Combiner) :
      Stepped u (.make name c)
        { u with
          registry := { u.registry with cells := u.registry.cells ++ [.fresh name c] }
          obtained := u.obtained ++ [(.alone u.obtained.length, u.registry.cells.length)] }
  | added {number : Nat} {o : Origin} {h : Handle} (holds : u.obtained[number]? = some (o, h))
      (v : Int64) :
      Stepped u (.add number v)
        { u with registry := u.registry.add h v, added := u.added ++ [(o, v)] }

variable {u u' : RegistryUse} {moves : List RegistryMove} {move : RegistryMove}

theorem stepped_of_step (h : u.step move = some u') : Stepped u move u' := by
  cases move with
  | ask name c =>
    cases hfind : u.registry.find? name with
    | some k =>
      simp only [step, Aggregators.getOrCreate_of_some hfind, Option.some.injEq] at h
      subst h
      apply Stepped.known hfind
    | none =>
      simp only [step, Aggregators.getOrCreate_of_none hfind, Option.some.injEq] at h
      subst h
      apply Stepped.registered hfind
  | look name =>
    simp only [step] at h
    split at h
    · cases h
      apply Stepped.found
      assumption
    · cases h
      apply Stepped.missed
      assumption
  | make name c =>
    cases h
    apply Stepped.made
  | add number v =>
    simp only [step] at h
    split at h
    · cases h
      apply Stepped.added
      assumption
    · cases h

/-! ## What the registry keeps -/

/-- The aggregator is that of the origin: it has what was `addedTo` the origin, and if that is a
name, it is registered as the name was first asked for. -/
structure IsOf (u : RegistryUse) (o : Origin) (a : Aggregator) : Prop where
  value : a.value = a.combiner.fold (u.addedTo o)
  registered : ∀ name, o = .named name → a.name = name ∧ u.asked.lookup name = some a.combiner

/-- Registry, handles and additions agree. `apart` is the heart of it: handles are equal just if
their origins are. -/
structure Kept (u : RegistryUse) : Prop where
  apart : ∀ o h o' h', (o, h) ∈ u.obtained → (o', h') ∈ u.obtained → (h = h' ↔ o = o')
  named : ∀ name h, u.registry.find? name = some h ↔ (.named name, h) ∈ u.obtained
  missing : ∀ name, u.registry.find? name = none → u.asked.lookup name = none
  cell : ∀ o h, (o, h) ∈ u.obtained → ∃ a, u.registry.read? h = some a ∧ u.IsOf o a
  old : ∀ n h, (.alone n, h) ∈ u.obtained → n < u.obtained.length
  through : ∀ o v, (o, v) ∈ u.added → ∃ h, (o, h) ∈ u.obtained

theorem lookup_concat {asked : List (String × Combiner)} {name : String} {c : Combiner}
    (h : asked.lookup name = some c) (p : String × Combiner) :
    (asked ++ [p]).lookup name = some c := by
  simp [List.lookup_append, h]

theorem lookup_concat_self {asked : List (String × Combiner)} {name : String}
    (h : asked.lookup name = none) (c : Combiner) :
    (asked ++ [(name, c)]).lookup name = some c := by
  simp [List.lookup_append, h]

theorem lookup_concat_other {name name' : String} (h : name' ≠ name)
    (asked : List (String × Combiner)) (c : Combiner) :
    (asked ++ [(name, c)]).lookup name' = asked.lookup name' := by
  have hbeq : (name' == name) = false := by simpa using h
  simp [List.lookup_append, List.lookup_cons, hbeq]

theorem addedTo_eq_nil {o : Origin} (h : ∀ v, (o, v) ∉ u.added) : u.addedTo o = [] := by
  rw [addedTo, List.map_eq_nil_iff, List.filter_eq_nil_iff]
  rintro ⟨o', v⟩ hmem heq
  obtain rfl : o' = o := by simpa using heq
  exact h v hmem

theorem addedTo_concat (u : RegistryUse) (registry : Aggregators) (o o' : Origin) (v : Int64) :
    addedTo { u with registry, added := u.added ++ [(o, v)] } o' =
      if o = o' then u.addedTo o' ++ [v] else u.addedTo o' := by
  by_cases ho : o = o' <;> simp [addedTo, ho]

namespace Kept

theorem new : ({} : RegistryUse).Kept where
  apart := by simp
  named name h := by simp [Aggregators.find?]
  missing := by simp
  cell := by simp
  old := by simp
  through := by simp

variable {asked : List (String × Combiner)}

theorem again (hu : u.Kept) {o : Origin} {h : Handle} (hmem : (o, h) ∈ u.obtained)
    (hasked : ∀ name c, u.asked.lookup name = some c → asked.lookup name = some c)
    (hmissing : ∀ name, u.registry.find? name = none → asked.lookup name = none) :
    Kept { u with obtained := u.obtained ++ [(o, h)], asked } := by
  have hiff (p : Origin × Handle) : p ∈ u.obtained ++ [(o, h)] ↔ p ∈ u.obtained := by
    rw [List.mem_append, List.mem_singleton]
    constructor
    · rintro (hp | rfl)
      · exact hp
      · exact hmem
    · exact Or.inl
  constructor
  · intro o₁ h₁ o₂ h₂ hm₁ hm₂
    exact hu.apart o₁ h₁ o₂ h₂ ((hiff _).mp hm₁) ((hiff _).mp hm₂)
  · intro name k
    rw [hiff]
    exact hu.named name k
  · exact hmissing
  · intro o' h' hm
    obtain ⟨a, hread, ha⟩ := hu.cell o' h' ((hiff _).mp hm)
    refine ⟨a, hread, ha.value, ?_⟩
    intro name hname
    exact (ha.registered name hname).imp_right (hasked name _)
  · intro n k hm
    rw [List.length_append]
    exact Nat.lt_add_right _ (hu.old n k ((hiff _).mp hm))
  · intro o' v hm
    obtain ⟨k, hk⟩ := hu.through o' v hm
    exact ⟨k, (hiff _).mpr hk⟩

theorem fresh (hu : u.Kept) {o : Origin} {name : String} {c : Combiner} {registry : Aggregators}
    (hnew : ∀ h, (o, h) ∉ u.obtained)
    (hcells : registry.cells = u.registry.cells ++ [.fresh name c])
    (hnamed : ∀ name' h, registry.find? name' = some h ↔
      (.named name', h) ∈ u.obtained ++ [(o, u.registry.cells.length)])
    (hasked : ∀ name c, u.asked.lookup name = some c → asked.lookup name = some c)
    (hmissing : ∀ name, registry.find? name = none → asked.lookup name = none)
    (hregistered : ∀ name', o = .named name' → name = name' ∧ asked.lookup name' = some c)
    (hold : ∀ n, o = .alone n → n = u.obtained.length) :
    Kept { u with
      registry, obtained := u.obtained ++ [(o, u.registry.cells.length)], asked } := by
  have hlt {o' : Origin} {h : Handle} (hm : (o', h) ∈ u.obtained) :
      h < u.registry.cells.length := by
    obtain ⟨a, hread, -⟩ := hu.cell o' h hm
    exact (List.getElem?_eq_some_iff.mp hread).1
  have hother {o' : Origin} {h : Handle} (hm : (o', h) ∈ u.obtained) :
      h ≠ u.registry.cells.length ∧ o' ≠ o := by
    refine ⟨Nat.ne_of_lt (hlt hm), ?_⟩
    rintro rfl
    exact hnew h hm
  constructor
  · intro o₁ h₁ o₂ h₂ hm₁ hm₂
    rcases List.mem_append.mp hm₁ with hin₁ | hlast₁ <;>
      rcases List.mem_append.mp hm₂ with hin₂ | hlast₂
    · exact hu.apart o₁ h₁ o₂ h₂ hin₁ hin₂
    · obtain ⟨rfl, rfl⟩ := Prod.mk.inj (List.mem_singleton.mp hlast₂)
      exact iff_of_false (hother hin₁).1 (hother hin₁).2
    · obtain ⟨rfl, rfl⟩ := Prod.mk.inj (List.mem_singleton.mp hlast₁)
      exact iff_of_false (hother hin₂).1.symm (hother hin₂).2.symm
    · obtain ⟨rfl, rfl⟩ := Prod.mk.inj (List.mem_singleton.mp hlast₁)
      obtain ⟨rfl, rfl⟩ := Prod.mk.inj (List.mem_singleton.mp hlast₂)
      exact iff_of_true rfl rfl
  · exact hnamed
  · exact hmissing
  · intro o' h' hm
    rcases List.mem_append.mp hm with hm | hm
    · obtain ⟨a, hread, ha⟩ := hu.cell o' h' hm
      refine ⟨a, ?_, ha.value, ?_⟩
      · rw [Aggregators.read?, hcells, List.getElem?_append_left (hlt hm)]
        exact hread
      · intro name' hname
        exact (ha.registered name' hname).imp_right (hasked name' _)
    · obtain ⟨rfl, rfl⟩ := Prod.mk.inj (List.mem_singleton.mp hm)
      refine ⟨.fresh name c, ?_, ?_, hregistered⟩
      · simp [Aggregators.read?, hcells]
      · -- Nothing was added through a handle that nobody had.
        have hnil : u.addedTo o' = [] := by
          apply addedTo_eq_nil
          intro v hv
          obtain ⟨h, hh⟩ := hu.through o' v hv
          exact hnew h hh
        show c.unit = c.fold (u.addedTo o')
        rw [hnil]
        rfl
  · intro n h hm
    rw [List.length_append, List.length_singleton]
    rcases List.mem_append.mp hm with hm | hm
    · exact Nat.lt_succ_of_lt (hu.old n h hm)
    · rw [hold n (Prod.mk.inj (List.mem_singleton.mp hm)).1.symm]
      exact Nat.lt_succ_self _
  · intro o' v hm
    obtain ⟨h, hh⟩ := hu.through o' v hm
    exact ⟨h, List.mem_append_left _ hh⟩

theorem added (hu : u.Kept) {o : Origin} {h : Handle} (hmem : (o, h) ∈ u.obtained) (v : Int64) :
    Kept { u with registry := u.registry.add h v, added := u.added ++ [(o, v)] } := by
  constructor
  · exact hu.apart
  · exact hu.named
  · exact hu.missing
  · intro o' h' hm
    obtain ⟨a, hread, ha⟩ := hu.cell o' h' hm
    have hread' : (u.registry.add h v).read? h' = some (if h = h' then a.add v else a) := by
      rw [Aggregators.read?] at hread
      by_cases hh : h = h' <;> simp [Aggregators.read?, Aggregators.add, hh, hread]
    refine ⟨_, hread', ?_, ?_⟩
    · rw [addedTo_concat]
      by_cases ho : o = o'
      · rw [if_pos ((hu.apart o h o' h' hmem hm).mpr ho), if_pos ho]
        show a.combiner.combine a.value v = a.combiner.fold (u.addedTo o' ++ [v])
        rw [Combiner.fold_concat, ha.value]
      · rw [if_neg (mt (hu.apart o h o' h' hmem hm).mp ho), if_neg ho]
        exact ha.value
    · intro name hname
      have hregistered := ha.registered name hname
      split <;> exact hregistered
  · exact hu.old
  · intro o' w hm
    rcases List.mem_append.mp hm with hm | hm
    · exact hu.through o' w hm
    · obtain ⟨rfl, rfl⟩ := Prod.mk.inj (List.mem_singleton.mp hm)
      exact ⟨h, hmem⟩

theorem stepped (hu : u.Kept) (hs : Stepped u move u') : u'.Kept := by
  cases hs with
  | @known name h found c =>
    apply hu.again ((hu.named name h).mp found)
    · intro name' c' hlookup
      exact lookup_concat hlookup _
    · intro name' hnone
      have hne : name' ≠ name := by
        rintro rfl
        rw [found] at hnone
        cases hnone
      rw [lookup_concat_other hne]
      exact hu.missing name' hnone
  | @registered name missing c =>
    apply hu.fresh
    · intro h hm
      rw [(hu.named name h).mpr hm] at missing
      cases missing
    · rfl
    · intro name' h
      rw [Aggregators.find?_register missing, List.mem_append, ← hu.named, List.mem_singleton]
      by_cases hname : name' = name
      · subst hname
        simp [missing, eq_comm]
      · simp [hname]
    · intro name' c' hlookup
      exact lookup_concat hlookup _
    · intro name' hnone
      rw [Aggregators.find?_register missing] at hnone
      split at hnone
      · cases hnone
      · rename_i hne
        rw [lookup_concat_other hne]
        exact hu.missing name' hnone
    · intro name' hname
      cases hname
      exact ⟨rfl, lookup_concat_self (hu.missing name missing) c⟩
    · nofun
  | @found name h found =>
    exact hu.again ((hu.named name h).mp found) (fun _ _ hlookup => hlookup) hu.missing
  | missed => exact hu
  | made name c =>
    apply hu.fresh
    · intro h hm
      exact absurd (hu.old _ h hm) (Nat.lt_irrefl _)
    · rfl
    · intro name' h
      rw [List.mem_append, ← hu.named, List.mem_singleton]
      constructor
      · exact Or.inl
      · rintro (hfind | hlast)
        · exact hfind
        · cases hlast
    · exact fun _ _ hlookup => hlookup
    · exact hu.missing
    · nofun
    · intro n hn
      cases hn
      rfl
  | added holds v => exact hu.added (List.mem_of_getElem? holds) v

theorem run (hu : u.Kept) (hrun : u.run moves = some u') : u'.Kept :=
  foldlM_invariant (A := fun _ => True) (fun hu _ hs => hu.stepped (stepped_of_step hs)) hu
    (fun _ _ => trivial) hrun

end Kept

/-! ## One aggregator for each name -/

theorem asked_run (hrun : u.run moves = some u') : u'.asked = u.asked ++ askedIn moves := by
  refine foldlM_induction (Q := fun moves u' => u'.asked = u.asked ++ askedIn moves)
    (by simp [askedIn]) ?_ hrun
  intro moves u₁ u₂ move _ ih hstep
  cases stepped_of_step hstep <;> simp [askedIn, ih]

theorem lookup_askedIn_isSome (moves : List RegistryMove) (name : String) :
    ((askedIn moves).lookup name).isSome = true ↔ ∃ c, .ask name c ∈ moves := by
  induction moves with
  | nil => simp [askedIn]
  | cons move moves ih =>
    cases move with
    | ask name' c =>
      by_cases hname : name = name'
      · subst hname
        simp [askedIn]
      · have hbeq : (name == name') = false := by simpa using hname
        simpa [askedIn, List.lookup_cons, hbeq, hname] using ih
    | look | make | add => simpa [askedIn] using ih

theorem run_append (u : RegistryUse) (moves later : List RegistryMove) :
    u.run (moves ++ later) = (u.run moves).bind (·.run later) :=
  List.foldlM_append

namespace Kept

theorem get?_eq (hu : u.Kept) {name : String} {h : Handle} (hmem : (.named name, h) ∈ u.obtained) :
    u.registry.get? name = u.registry.read? h := by
  rw [Aggregators.get?, (hu.named name h).mpr hmem]
  rfl

theorem lookup_of_get? (hu : u.Kept) {name : String} {a : Aggregator}
    (hget : u.registry.get? name = some a) :
    a.name = name ∧ u.asked.lookup name = some a.combiner := by
  obtain ⟨h, hfind, hread⟩ := Option.bind_eq_some_iff.mp hget
  obtain ⟨b, hread', hb⟩ := hu.cell _ h ((hu.named name h).mp hfind)
  obtain rfl : a = b := Option.some.inj (hread.symm.trans hread')
  exact hb.registered name rfl

theorem isSome_get? (hu : u.Kept) (name : String) :
    (u.registry.get? name).isSome = true ↔ (u.asked.lookup name).isSome = true := by
  cases hget : u.registry.get? name with
  | some a => simp [(hu.lookup_of_get? hget).2]
  | none =>
    have hfind : u.registry.find? name = none := by
      by_contra hsome
      obtain ⟨h, hfind⟩ := Option.ne_none_iff_exists'.mp hsome
      obtain ⟨a, hread, -⟩ := hu.cell _ h ((hu.named name h).mp hfind)
      rw [hu.get?_eq ((hu.named name h).mp hfind), hread] at hget
      cases hget
    simp [hu.missing name hfind]

end Kept

/-- **One aggregator for each name.** After any sequence of calls: two handles are the same
aggregator exactly if they were obtained for the same, so all handles of a name are one aggregator,
and those of different names, or of aggregators without a name, are different ones. A name that is
looked up is found exactly if some call has asked for it before, and it leads to the aggregator of
its handles. That one is registered with the combiner of the first call that asked for the name,
and keeps it. And every aggregator has the total of the values that were added through the handles
of its own name, or through its own handles: their sum, brought into 64 bits, or the end of them.
The order in which they were added makes no difference, nor does anything that was added
elsewhere. -/
theorem one_aggregator_per_name (hrun : ({} : RegistryUse).run moves = some u) :
    (∀ o h o' h', (o, h) ∈ u.obtained → (o', h') ∈ u.obtained → (h = h' ↔ o = o')) ∧
    (∀ name, (u.registry.get? name).isSome = true ↔ ∃ c, .ask name c ∈ moves) ∧
    (∀ name h, u.registry.find? name = some h ↔ (.named name, h) ∈ u.obtained) ∧
    (∀ name h, (.named name, h) ∈ u.obtained → ∃ a, u.registry.read? h = some a ∧
      u.registry.get? name = some a ∧ a.name = name ∧
        (askedIn moves).lookup name = some a.combiner) ∧
    (∀ before after u₁, moves = before ++ after → ({} : RegistryUse).run before = some u₁ →
      ∀ name a₁, u₁.registry.get? name = some a₁ →
        ∃ a, u.registry.get? name = some a ∧ a.combiner = a₁.combiner) ∧
    ∀ o h, (o, h) ∈ u.obtained → ∃ a, u.registry.read? h = some a ∧
      a.combiner.Totals (u.addedTo o) a.value ∧
        ∀ vs, vs.Perm (u.addedTo o) → a.combiner.fold vs = a.value := by
  have hu : u.Kept := Kept.new.run hrun
  have hasked : u.asked = askedIn moves := asked_run hrun
  have hsome (name : String) :
      (u.registry.get? name).isSome = true ↔ ∃ c, .ask name c ∈ moves := by
    rw [hu.isSome_get?, hasked, lookup_askedIn_isSome]
  refine ⟨hu.apart, hsome, hu.named, ?_, ?_, ?_⟩
  · intro name h hmem
    obtain ⟨a, hread, ha⟩ := hu.cell _ h hmem
    obtain ⟨hname, hlookup⟩ := ha.registered name rfl
    rw [hasked] at hlookup
    exact ⟨a, hread, (hu.get?_eq hmem).trans hread, hname, hlookup⟩
  · rintro before after u₁ rfl hbefore name a₁ hget₁
    obtain ⟨-, hlookup₁⟩ := (Kept.new.run hbefore).lookup_of_get? hget₁
    rw [run_append, hbefore] at hrun
    -- The name was asked for first before, and still is.
    have hlookup : u.asked.lookup name = some a₁.combiner := by
      rw [asked_run hrun, List.lookup_append, hlookup₁]
      rfl
    have hfound : (u.registry.get? name).isSome = true := by
      rw [hu.isSome_get?, hlookup]
      rfl
    obtain ⟨a, hget⟩ := Option.isSome_iff_exists.mp hfound
    rw [(hu.lookup_of_get? hget).2] at hlookup
    exact ⟨a, hget, Option.some.inj hlookup⟩
  · intro o h hmem
    obtain ⟨a, hread, ha⟩ := hu.cell o h hmem
    refine ⟨a, hread, ?_, ?_⟩
    · rw [ha.value]
      exact a.combiner.totals_fold _
    · intro vs hperm
      rw [ha.value, a.combiner.fold_perm hperm]

/-- Two users disagree on how to combine under one name, a third has an aggregator of its own that
is called the same. The sum overflows. -/
def contestedMoves : List RegistryMove :=
  [.ask "total" .sum, .ask "total" .max, .make "total" .min, .add 1 .maxValue, .add 2 7,
    .look "total", .look "other", .add 3 1, .add 0 4]

theorem one_aggregator_per_name_contested :
    ∃ u, ({} : RegistryUse).run contestedMoves = some u ∧
      u.obtained = [(.named "total", 0), (.named "total", 0), (.alone 2, 1), (.named "total", 0)] ∧
      u.addedTo (.named "total") = [.maxValue, 1, 4] ∧
      (∃ a, u.registry.get? "total" = some a ∧ a.combiner = .sum ∧ a.value = .minValue + 4 ∧
        Combiner.sum.fold [4, .maxValue, 1] = a.value) ∧
      ¬ (u.registry.get? "other").isSome = true := by
  have hstate : (({} : RegistryUse).run contestedMoves).map (fun u => (u.obtained,
      u.addedTo (.named "total"), u.registry.get? "total")) =
        some ([(.named "total", 0), (.named "total", 0), (.alone 2, 1), (.named "total", 0)],
          [.maxValue, 1, 4], some ⟨"total", .sum, .minValue + 4⟩) := by
    decide +kernel
  obtain ⟨u, hrun, hu⟩ := Option.map_eq_some_iff.mp hstate
  obtain ⟨hobtained, hu⟩ := Prod.mk.inj hu
  obtain ⟨hadded, htotal⟩ := Prod.mk.inj hu
  have hmem : (Origin.named "total", 0) ∈ u.obtained := by simp [hobtained]
  obtain ⟨-, hfound, -, hfirst, -, htotals⟩ := one_aggregator_per_name hrun
  obtain ⟨a, hread, hget, -⟩ := hfirst _ _ hmem
  obtain ⟨b, hread', -, hperm⟩ := htotals _ _ hmem
  obtain rfl : a = b := Option.some.inj (hread.symm.trans hread')
  obtain rfl : a = ⟨"total", .sum, .minValue + 4⟩ := Option.some.inj (hget.symm.trans htotal)
  refine ⟨u, hrun, hobtained, hadded, ⟨_, hget, rfl, rfl, ?_⟩, ?_⟩
  · apply hperm
    rw [hadded]
    decide
  · rw [hfound]
    simp [contestedMoves]

end RegistryUse

end WorkBundle
