import WorkBundle.Machine.Act
import WorkBundle.Outlet
import WorkBundle.Proofs.Shuffle
import Mathlib.Algebra.GroupWithZero.Nat
import Mathlib.Data.List.Nodup

/-!
# What a sink has collected

Elements of one bundle make calls that emit, each through all the layers between its code and the
sink. However the calls are mixed, the sink ends up with one emission for each, in the order in
which they were made (`Outlet.run_calls`): a call that names a time is recorded with it, a call that
names none with the time of its element, and the layers change nothing else (`Element.emission`).
Workers that make their calls at the same time do no more than this: the lock puts their calls one
after the other (`Outlet.run_shuffle`).

What is asked of the sink later on takes the emissions apart. Every emission is either one to the
main output or under one tag, which is an id together with a type; two tags may share the id. So
for any list of tags that leaves none out and has none twice, the answers add up to everything that
was collected (`perm_outputs`).
-/

set_option autoImplicit false

namespace WorkBundle

variable {α β ν τ : Type}

/-! ## The path of a call -/

def Element.emission (e : Element α) : EmitCall β ν → Emission β ν
  | .output v => .main v e.timestamp
  | .outputAt v t => .main v t
  | .side v => .side v e.timestamp
  | .sideAt v t => .side v t

/-- A call through all layers takes the lock, records one emission, and gives the lock back. With
this the layers are done with: all that follows is about these three steps. -/
theorem Element.context_steps (e : Element α) (c : EmitCall β ν) :
    e.context.steps c = [.lock, .keep (e.emission c), .unlock] := by
  cases c <;> rfl

def stepsOf (calls : List (Element α × EmitCall β ν)) : List (OutletStep β ν) :=
  calls.flatMap fun c => c.1.context.steps c.2

@[simp] theorem stepsOf_nil : stepsOf ([] : List (Element α × EmitCall β ν)) = [] := rfl

theorem stepsOf_cons (c : Element α × EmitCall β ν) (calls : List (Element α × EmitCall β ν)) :
    stepsOf (c :: calls) = .lock :: .keep (c.1.emission c.2) :: .unlock :: stepsOf calls := by
  rw [stepsOf, List.flatMap_cons, c.1.context_steps]
  rfl

namespace Outlet

theorem run_calls {o : Outlet β ν} (h : o.locked = false)
    (calls : List (Element α × EmitCall β ν)) :
    o.run (stepsOf calls) =
      some { o with emissions := o.emissions ++ calls.map fun c => c.1.emission c.2 } := by
  induction calls generalizing o with
  | nil =>
    rw [List.map_nil, List.append_nil]
    rfl
  | cons c calls ih =>
    obtain ⟨es, locked⟩ := o
    cases h
    -- The lock is free again after each call, so the next one finds what the first one found.
    have hrest := @ih ⟨es ++ [c.1.emission c.2], false⟩ rfl
    rw [List.append_assoc] at hrest
    rw [stepsOf_cons]
    exact hrest

/-! ## Calls of several workers at once -/

/-- Whoever is in the middle of a call goes on alone: all others are between two calls, and the next
thing they do is to take the lock. -/
theorem next_of_locked {es : List (Emission β ν)} {o : Outlet β ν}
    {tagged : List (Nat × OutletStep β ν)} {n : Nat} {s : OutletStep β ν}
    {more : List (OutletStep β ν)} {ahead : Nat → List (Element α × EmitCall β ν)}
    (hrun : (⟨es, true⟩ : Outlet β ν).run (tagged.map (·.2)) = some o)
    (hown : shareOf n tagged = s :: more)
    (hothers : ∀ k, k ≠ n → shareOf k tagged = stepsOf (ahead k)) :
    ∃ rest, tagged = (n, s) :: rest ∧ shareOf n rest = more ∧
      ∀ k, k ≠ n → shareOf k rest = stepsOf (ahead k) := by
  cases tagged with
  | nil => cases hown
  | cons first rest =>
    obtain ⟨k, first⟩ := first
    by_cases hk : k = n
    · subst hk
      rw [shareOf_cons_self] at hown
      obtain ⟨rfl, hmore⟩ := List.cons.inj hown
      refine ⟨rest, rfl, hmore, fun j hj => ?_⟩
      rw [← hothers j hj, shareOf_cons_other hj]
    · have hfirst := hothers k hk
      rw [shareOf_cons_self] at hfirst
      cases hahead : ahead k with
      | nil =>
        rw [hahead] at hfirst
        cases hfirst
      | cons c cs =>
        rw [hahead, stepsOf_cons] at hfirst
        obtain ⟨rfl, -⟩ := List.cons.inj hfirst
        cases hrun

/-- Calls that are made at the same time come one after the other: what the lock lets happen is what
some sequence of whole calls does, in which every worker's calls are in its own order. -/
theorem calls_of_shares {tagged : List (Nat × OutletStep β ν)}
    {ahead : Nat → List (Element α × EmitCall β ν)}
    (hshare : ∀ k, shareOf k tagged = stepsOf (ahead k)) {es : List (Emission β ν)}
    {o : Outlet β ν} (hrun : (⟨es, false⟩ : Outlet β ν).run (tagged.map (·.2)) = some o) :
    ∃ order : List (Nat × Element α × EmitCall β ν), (∀ k, shareOf k order = ahead k) ∧
      o = ⟨es ++ order.map fun c => c.2.1.emission c.2.2, false⟩ := by
  cases tagged with
  | nil =>
    refine ⟨[], fun k => ?_, ?_⟩
    · have hk := hshare k
      cases hahead : ahead k with
      | nil => rfl
      | cons c cs =>
        rw [hahead, stepsOf_cons] at hk
        cases hk
    · cases hrun
      rw [List.map_nil, List.append_nil]
  | cons first rest =>
    obtain ⟨n, first⟩ := first
    have hown := hshare n
    rw [shareOf_cons_self] at hown
    cases hahead : ahead n with
    | nil =>
      rw [hahead] at hown
      cases hown
    | cons c cs =>
      rw [hahead, stepsOf_cons] at hown
      obtain ⟨rfl, hkeep⟩ := List.cons.inj hown
      have hothers : ∀ k, k ≠ n → shareOf k rest = stepsOf (ahead k) := by
        intro k hk
        rw [← hshare k, shareOf_cons_other hk]
      -- The lock is taken now, so the next two steps are those of the same call.
      have hrun : (⟨es, true⟩ : Outlet β ν).run (rest.map (·.2)) = some o := hrun
      obtain ⟨kept, rfl, hunlock, hothers⟩ := next_of_locked hrun hkeep hothers
      have hrun : (⟨es ++ [c.1.emission c.2], true⟩ : Outlet β ν).run (kept.map (·.2)) = some o :=
        hrun
      obtain ⟨later, rfl, hlater, hothers⟩ := next_of_locked hrun hunlock hothers
      have hshare' : ∀ k, shareOf k later = stepsOf (if k = n then cs else ahead k) := by
        intro k
        by_cases hk : k = n
        · rw [if_pos hk, hk]
          exact hlater
        · rw [if_neg hk]
          exact hothers k hk
      have hrun : (⟨es ++ [c.1.emission c.2], false⟩ : Outlet β ν).run (later.map (·.2)) = some o :=
        hrun
      obtain ⟨order, horder, ho⟩ := calls_of_shares hshare' hrun
      refine ⟨(n, c) :: order, fun k => ?_, ?_⟩
      · by_cases hk : k = n
        · rw [hk, shareOf_cons_self, horder, if_pos rfl, hahead]
        · rw [shareOf_cons_other hk, horder, if_neg hk]
      · rw [ho, List.append_assoc]
        rfl
termination_by tagged.length

/-- The same of any mixture of the workers' steps that the lock lets happen (`IsShuffle`). -/
theorem run_shuffle {workers : List (List (Element α × EmitCall β ν))}
    {steps : List (OutletStep β ν)} {o : Outlet β ν}
    (hmixed : IsShuffle (workers.map stepsOf) steps)
    (hrun : ({} : Outlet β ν).run steps = some o) :
    ∃ order, IsShuffle workers order ∧
      o = { emissions := order.map fun c => c.1.emission c.2, locked := false } := by
  obtain ⟨tagged, rfl, hshares⟩ := hmixed
  have hshare : ∀ k, shareOf k tagged = stepsOf (workers[k]?.getD []) := by
    intro k
    rw [hshares, List.getElem?_map]
    cases workers[k]? <;> rfl
  obtain ⟨order, horder, ho⟩ := calls_of_shares hshare hrun
  refine ⟨order.map (·.2), ⟨order, rfl, horder⟩, ?_⟩
  rw [ho, List.map_map]
  rfl

end Outlet

theorem EmitCall.emission?_element (e : Element α) (c : EmitCall β ν) :
    c.emission? (some e.timestamp) = some (e.emission c) := by
  cases c <;> rfl

/-- A worker of an engine asks for the emission that the context of its element records. So the
outlet, which has no workers, and the engine, which has no layers, agree on every call. -/
theorem Machine.perform_emit_worker (m : Machine α) (number : Nat) (item : WorkItem α)
    (a : Activity α) (c : EmitCall (Output α)) :
    m.perform (.worker number item) a (.emit c) =
      m.requestEmission (.worker number item) a (item.toElement.emission c) := by
  have helement : (Owner.worker number item).element? = some item.toElement := rfl
  simp only [perform, helement, Option.map_some, EmitCall.emission?_element]

/-! ## The tag of an emission -/

section

variable [Typed ν τ]

def TaggedValue.tag (v : TaggedValue ν) : Tag τ := ⟨v.id, Typed.typeOf v.value⟩

def Emission.tag? : Emission β ν → Option (Tag τ)
  | .main .. => none
  | .side v _ => some v.tag

theorem Emission.isSome_main? (e : Emission β ν) : e.main?.isSome = true ↔ e.tag? = none := by
  cases e <;> simp [main?, tag?]

variable [DecidableEq τ]

theorem TaggedValue.get?_eq (v : TaggedValue ν) (tag : Tag τ) :
    v.get? tag = if v.tag = tag then some v.value else none := by
  obtain ⟨id, type⟩ := tag
  rw [get?, Typed.as?, TaggedValue.tag]
  by_cases hid : v.id = id
  · by_cases htype : Typed.typeOf v.value = type <;> simp [hid, htype]
  · simp [hid]

namespace Emission

theorem isSome_sideUnder? (e : Emission β ν) (tag : Tag τ) :
    (e.sideUnder? tag).isSome = true ↔ e.tag? = some tag := by
  cases e with
  | main => simp [sideUnder?, tag?]
  | side v t =>
    rw [sideUnder?, TaggedValue.get?_eq, tag?]
    split <;> simp [*]

/-- An emission is either found in the main output, and under no tag, or under one tag, and not in
the main output. The tag is made of its id and the type of its value (`TaggedValue.tag`). -/
theorem main_or_tagged (e : Emission β ν) :
    (e.main?.isSome = true ∧ ∀ tag, e.sideUnder? tag = none) ∨
      (e.main? = none ∧ ∃! tag, (e.sideUnder? tag).isSome = true) := by
  cases e with
  | main v t => exact Or.inl ⟨rfl, fun tag => rfl⟩
  | side v t =>
    refine Or.inr ⟨rfl, v.tag, (isSome_sideUnder? _ _).mpr rfl, fun tag htag => ?_⟩
    exact (Option.some.inj ((isSome_sideUnder? _ _).mp htag)).symm

end Emission

/-! ## What the answers add up to -/

/-- Entries taken apart by a key are all there, and each once, if no key is left out and none comes
twice. -/
theorem perm_flatMap_filter {ε κ : Type} [DecidableEq κ] (key : ε → κ) {ks : List κ}
    (hn : ks.Nodup) {l : List ε} (h : ∀ x ∈ l, key x ∈ ks) :
    l.Perm (ks.flatMap fun k => l.filter (key · = k)) := by
  induction ks generalizing l with
  | nil =>
    obtain rfl : l = [] := List.eq_nil_iff_forall_not_mem.mpr fun x hx => nomatch h x hx
    rfl
  | cons k ks ih =>
    obtain ⟨hk, hn⟩ := List.nodup_cons.mp hn
    have hrest : ∀ x ∈ l.filter (fun x => !decide (key x = k)), key x ∈ ks := by
      intro x hx
      obtain ⟨hx, hne⟩ := List.mem_filter.mp hx
      exact (List.mem_cons.mp (h x hx)).resolve_left (by simpa using hne)
    have hkeys : (ks.flatMap fun j => (l.filter fun x => !decide (key x = k)).filter (key · = j)) =
        ks.flatMap fun j => l.filter (key · = j) := by
      refine List.flatMap_congr fun j hj => ?_
      rw [List.filter_filter]
      refine List.filter_congr fun x _ => ?_
      by_cases hx : key x = j
      · have hne : ¬ j = k := fun hjk => hk (hjk ▸ hj)
        simp [hx, hne]
      · simp [hx]
    rw [List.flatMap_cons, ← hkeys]
    have hsplit := List.filter_append_perm (fun x => decide (key x = k)) l
    exact hsplit.symm.trans ((ih hn hrest).append_left _)

theorem perm_outputs {es : List (Emission β ν)} {tags : List (Tag τ)} (hn : tags.Nodup)
    (h : ∀ e ∈ es, ∀ tag, (e.sideUnder? tag).isSome = true → tag ∈ tags) :
    es.Perm (es.filter (·.main?.isSome) ++
      tags.flatMap fun tag => es.filter fun e => (e.sideUnder? tag).isSome) := by
  have hkeys : (none :: tags.map some).Nodup :=
    List.nodup_cons.mpr ⟨by simp, List.Nodup.map (fun _ _ h => Option.some.inj h) hn⟩
  have hcovered : ∀ e ∈ es, e.tag? ∈ none :: tags.map some := by
    intro e he
    cases htag : e.tag? with
    | none => simp
    | some tag =>
      have := h e he tag ((e.isSome_sideUnder? tag).mpr htag)
      simpa using this
  have hperm := perm_flatMap_filter Emission.tag? hkeys hcovered
  rw [List.flatMap_cons, List.flatMap_map] at hperm
  simpa only [← Emission.isSome_main?, ← Emission.isSome_sideUnder?, Bool.decide_eq_true]
    using hperm

theorem length_filter_isSome {ε δ : Type} (f : ε → Option δ) (l : List ε) :
    (l.filter fun x => (f x).isSome).length = (l.filterMap f).length := by
  rw [List.length_filterMap_eq_countP, List.countP_eq_length_filter]

theorem length_outputs {es : List (Emission β ν)} {tags : List (Tag τ)} (hn : tags.Nodup)
    (h : ∀ e ∈ es, ∀ tag, (e.sideUnder? tag).isSome = true → tag ∈ tags) :
    es.length = (mainValues es).length + (tags.map fun tag => (sideValues es tag).length).sum := by
  have hlength := (perm_outputs hn h).length_eq
  rw [List.length_append, List.length_flatMap, length_filter_isSome] at hlength
  simpa only [length_filter_isSome, mainValues, timestampedValues, sideValues, List.length_map]
    using hlength

/-! ## Elements at their calls -/

def EmitCall.main? (elementTime : Timestamp) : EmitCall β ν → Option (β × Timestamp)
  | .output v => some (v, elementTime)
  | .outputAt v t => some (v, t)
  | .side _ | .sideAt .. => none

def EmitCall.side? : EmitCall β ν → Option (TaggedValue ν)
  | .output _ | .outputAt .. => none
  | .side v | .sideAt v _ => some v

theorem Element.emission_main? (e : Element α) (c : EmitCall β ν) :
    (e.emission c).main? = c.main? e.timestamp := by
  cases c <;> rfl

theorem Element.emission_sideUnder? (e : Element α) (c : EmitCall β ν) (tag : Tag τ) :
    (e.emission c).sideUnder? tag =
      (c.side?.filter fun v => v.id = tag.id ∧ Typed.typeOf v.value = tag.type).map (·.value) := by
  have hget (v : TaggedValue ν) : v.get? tag =
      ((some v).filter fun v => v.id = tag.id ∧ Typed.typeOf v.value = tag.type).map (·.value) := by
    rw [TaggedValue.get?, Typed.as?, Option.filter_some]
    by_cases hid : v.id = tag.id <;> by_cases htype : Typed.typeOf v.value = tag.type <;>
      simp [hid, htype]
  cases c with
  | output | outputAt => rfl
  | side v | sideAt v => exact hget v

/-- **The sink has what was called.** Whatever calls are made, by whatever elements and in whatever
mixture, all of them come through, and the sink has one emission for each, in their order: of the
kind that was called, with the time that was named, and else with the time of the element
(`Element.emission`). The values of the main output are those of the calls to it. The values under a
tag are those of the calls with its id whose value has its type. Every emission is in the main
output or under one tag, never both; and for tags that leave none out and come once each, the
emissions of the main output and those under the tags are all emissions, so their numbers add up.

Workers that call at the same time do what their calls do one after the other, in some order that
keeps the order of each worker, which is why the first part is about them, too. And the code of a
worker in an engine asks for the emission that the context of its element records. -/
theorem emissions_as_called (calls : List (Element α × EmitCall β ν)) :
    (∃ sink : List (Emission β ν),
      ({} : Outlet β ν).run (stepsOf calls) = some { emissions := sink, locked := false } ∧
      sink = calls.map (fun c => c.1.emission c.2) ∧
      timestampedValues sink = calls.filterMap (fun c => c.2.main? c.1.timestamp) ∧
      mainValues sink = (calls.filterMap fun c => c.2.main? c.1.timestamp).map (·.1) ∧
      (∀ tag : Tag τ, sideValues sink tag =
        ((calls.filterMap (·.2.side?)).filter fun v =>
          v.id = tag.id ∧ Typed.typeOf v.value = tag.type).map (·.value)) ∧
      (∀ e ∈ sink, (e.main?.isSome = true ∧ ∀ tag, e.sideUnder? tag = none) ∨
        (e.main? = none ∧ ∃! tag, (e.sideUnder? tag).isSome = true)) ∧
      ∀ tags : List (Tag τ), tags.Nodup →
        (∀ e ∈ sink, ∀ tag, (e.sideUnder? tag).isSome = true → tag ∈ tags) →
        sink.Perm (sink.filter (·.main?.isSome) ++
          tags.flatMap fun tag => sink.filter fun e => (e.sideUnder? tag).isSome) ∧
        (mainValues sink).length + (tags.map fun tag => (sideValues sink tag).length).sum =
          sink.length) ∧
    (∀ (workers : List (List (Element α × EmitCall β ν))) (steps : List (OutletStep β ν))
      (o : Outlet β ν), IsShuffle (workers.map stepsOf) steps →
        ({} : Outlet β ν).run steps = some o →
        ∃ order, IsShuffle workers order ∧ ({} : Outlet β ν).run (stepsOf order) = some o) ∧
    ∀ (m : Machine α) (number : Nat) (item : WorkItem α) (a : Activity α)
      (c : EmitCall (Output α)),
      m.perform (.worker number item) a (.emit c) =
        m.requestEmission (.worker number item) a (item.toElement.emission c) := by
  have hmain : timestampedValues (calls.map fun c => c.1.emission c.2) =
      calls.filterMap (fun c => c.2.main? c.1.timestamp) := by
    rw [timestampedValues, List.filterMap_map]
    exact List.filterMap_congr fun c _ => c.1.emission_main? c.2
  refine ⟨⟨calls.map fun c => c.1.emission c.2, Outlet.run_calls rfl calls, rfl, hmain, ?_,
    fun tag => ?_, fun e _ => e.main_or_tagged, fun tags hn h => ?_⟩, ?_,
    fun m number item a c => m.perform_emit_worker number item a c⟩
  · rw [mainValues, hmain]
  · rw [sideValues, List.filterMap_map, List.filter_filterMap, List.map_filterMap]
    exact List.filterMap_congr fun c _ => c.1.emission_sideUnder? c.2 tag
  · exact ⟨perm_outputs hn h, (length_outputs hn h).symm⟩
  · intro workers steps o hmixed hrun
    obtain ⟨order, horder, ho⟩ := Outlet.run_shuffle hmixed hrun
    exact ⟨order, horder, by rw [Outlet.run_calls rfl order, ho]; rfl⟩

end

/-- Two elements and all four kinds of calls, in turn. Two side outputs have one id and differ in
their types, so that each is found under its own tag only. Then each element calls once, both at the
same time: the steps of the later one come first. -/
theorem emissions_as_called_in_turn :
    let early : Element Nat := { value := 1, timestamp := ⟨5⟩ }
    let late : Element Nat := { value := 2, timestamp := ⟨7⟩ }
    let counts : Tag := ⟨"audit", .int⟩
    let words : Tag := ⟨"audit", .text⟩
    let calls : List (Element Nat × EmitCall Nat) :=
      [(early, .output 10), (late, .side (counts.value (.int 3))), (early, .outputAt 20 ⟨9⟩),
        (late, .sideAt (words.value (.text "b")) ⟨9⟩), (late, .output 30)]
    let workers : List (List (Element Nat × EmitCall Nat)) :=
      [[(early, .output 10)], [(late, .output 30)]]
    (∃ sink : List (Emission Nat),
      ({} : Outlet Nat).run (stepsOf calls) = some { emissions := sink, locked := false } ∧
      timestampedValues sink = [(10, ⟨5⟩), (20, ⟨9⟩), (30, ⟨7⟩)] ∧
      sideValues sink counts = [.int 3] ∧ sideValues sink words = [.text "b"] ∧
      (mainValues sink).length +
        ([counts, words].map fun tag => (sideValues sink tag).length).sum = sink.length) ∧
    ∃ order, IsShuffle workers order ∧ ({} : Outlet Nat).run (stepsOf order) =
      some { emissions := [.main 30 ⟨7⟩, .main 10 ⟨5⟩], locked := false } := by
  intro early late counts words calls workers
  obtain ⟨⟨sink, hrun, rfl, hmain, -, hside, -, hparts⟩, hmixed, -⟩ :=
    emissions_as_called calls
  refine ⟨⟨_, hrun, hmain, hside counts, hside words, (hparts [counts, words] (by decide) ?_).2⟩,
    hmixed workers (stepsOf [(late, .output 30), (early, .output 10)]) _ ?_
      (Outlet.run_calls rfl _)⟩
  rotate_left
  · refine ⟨(stepsOf [(late, .output 30)]).map (1, ·) ++ (stepsOf [(early, .output 10)]).map (0, ·),
      rfl, fun k => ?_⟩
    rcases k with _ | _ | k
    · rfl
    · rfl
    · rw [shareOf_append, shareOf_other (by omega), shareOf_other (by omega)]
      rfl
  intro e he tag htag
  simp only [calls, List.map_cons, List.map_nil, List.mem_cons, List.not_mem_nil, or_false] at he
  rcases he with rfl | rfl | rfl | rfl | rfl
  all_goals
    rw [Emission.isSome_sideUnder?] at htag
    cases htag <;> decide

end WorkBundle
