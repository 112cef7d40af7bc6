import Mathlib.Data.List.Forall2
import Mathlib.Data.List.Induction
import Mathlib.Data.List.Sort

/-!
# Greedy schedules

Elements with given delays, taken in their order by `n` hands: each starts as soon as a hand is
free. So the first `n` start at once, and a later one starts when so many of those before it have
ended that no more than `n - 1` are left: the one with the number `i` at the `(i - n + 1)`-th
smallest of their ends (`ListSchedule.nextStart`). Which one that is can be told by counting
(`ListSchedule.nextStart_eq`), and if all delays are equal the elements come in rounds of `n`.
-/

set_option autoImplicit false

namespace WorkBundle

namespace ListSchedule

/-- When the next element starts, if those before it end at these times: at once while a hand is
free, and otherwise when the first of the last `n` comes free, which is a place in the sorted list.
-/
def nextStart (n : Nat) (ends : List Nat) : Nat :=
  if ends.length < n then 0 else (ends.insertionSort (· ≤ ·)).getD (ends.length - n) 0

/-- When the elements with these delays end. Elements take their `nextStart` in the order of the
list, as a producer hands them over. -/
def ends (n : Nat) (delays : List Nat) : List Nat :=
  delays.foldl (fun ends d => ends ++ [nextStart n ends + d]) []

/-- When the element with this number starts; it depends on those before it only, as `ends_prefix`
shows. -/
def start (n : Nat) (delays : List Nat) (i : Nat) : Nat := nextStart n (ends n (delays.take i))

def makespan (n : Nat) (delays : List Nat) : Nat := (ends n delays).foldr max 0

variable {n : Nat} {delays : List Nat} {i d t : Nat}

/-! ## The order of ends -/

theorem le_getElem_of_countP {l : List Nat} (hs : l.Pairwise (· ≤ ·)) {k : Nat} (hk : k < l.length)
    (h : l.countP (· < t) ≤ k) : t ≤ l[k] := by
  induction l generalizing k with
  | nil => cases hk
  | cons a l ih =>
    obtain ⟨ha, hl⟩ := List.pairwise_cons.mp hs
    rw [List.countP_cons] at h
    by_cases hat : a < t
    · simp only [hat, decide_true, if_true] at h
      cases k with
      | zero => omega
      | succ k => exact ih hl (Nat.lt_of_succ_lt_succ hk) (by omega)
    · cases k with
      | zero => exact Nat.le_of_not_lt hat
      | succ k => exact (Nat.le_of_not_lt hat).trans (ha _ (List.getElem_mem _))

theorem getElem_le_of_countP {l : List Nat} (hs : l.Pairwise (· ≤ ·)) {k : Nat} (hk : k < l.length)
    (h : k < l.countP (· ≤ t)) : l[k] ≤ t := by
  induction l generalizing k with
  | nil => cases hk
  | cons a l ih =>
    obtain ⟨ha, hl⟩ := List.pairwise_cons.mp hs
    cases k with
    | zero =>
      obtain ⟨b, hb, hbt⟩ := List.countP_pos_iff.mp h
      have hbt : b ≤ t := of_decide_eq_true hbt
      rcases List.mem_cons.mp hb with rfl | hb
      · exact hbt
      · exact (ha b hb).trans hbt
    | succ k =>
      rw [List.countP_cons] at h
      refine ih hl (Nat.lt_of_succ_lt_succ hk) ?_
      split at h <;> omega

theorem nextStart_of_lt {done : List Nat} (h : done.length < n) : nextStart n done = 0 := if_pos h

/-- The next element starts at the time `t` if before it all hands are in use, and then one is free.
Machines are compared with `start` by this, since both numbers can be counted off their workers. -/
theorem nextStart_eq {done : List Nat} (hbusy : done.countP (· < t) + n ≤ done.length)
    (hfree : done.length < done.countP (· ≤ t) + n) : nextStart n done = t := by
  have hperm := List.perm_insertionSort (· ≤ ·) done
  have hsorted : (done.insertionSort (· ≤ ·)).Pairwise (· ≤ ·) := List.pairwise_insertionSort _ done
  have hlength : (done.insertionSort (· ≤ ·)).length = done.length :=
    List.length_insertionSort _ done
  have hle : done.countP (· ≤ t) ≤ done.length := List.countP_le_length
  have hlt : done.length - n < (done.insertionSort (· ≤ ·)).length := by omega
  rw [nextStart, if_neg (by omega), ← List.getElem_eq_getD (h := hlt)]
  refine Nat.le_antisymm (getElem_le_of_countP hsorted hlt ?_) (le_getElem_of_countP hsorted hlt ?_)
  · rw [hperm.countP_eq]
    omega
  · rw [hperm.countP_eq]
    omega

/-! ## One element after the other -/

theorem ends_concat (n : Nat) (delays : List Nat) (d : Nat) :
    ends n (delays ++ [d]) = ends n delays ++ [nextStart n (ends n delays) + d] := by
  rw [ends, List.foldl_concat]
  rfl

@[simp] theorem length_ends (n : Nat) (delays : List Nat) :
    (ends n delays).length = delays.length := by
  induction delays using List.reverseRecOn with
  | nil => rfl
  | append_singleton delays d ih => simp [ends_concat, ih]

theorem ends_take_succ (n : Nat) (h : delays[i]? = some d) :
    ends n (delays.take (i + 1)) = ends n (delays.take i) ++ [start n delays i + d] := by
  rw [List.take_add_one, h, Option.toList_some, ends_concat, start]

theorem ends_prefix (n : Nat) (delays later : List Nat) :
    ends n delays <+: ends n (delays ++ later) := by
  induction later using List.reverseRecOn with
  | nil => exact ⟨[], by rw [List.append_nil, List.append_nil]⟩
  | append_singleton later d ih =>
    rw [← List.append_assoc, ends_concat]
    exact ih.trans (List.prefix_append _ _)

theorem getElem?_ends (n : Nat) (h : delays[i]? = some d) :
    (ends n delays)[i]? = some (start n delays i + d) := by
  have hfirst : (ends n (delays.take (i + 1)))[i]? = some (start n delays i + d) := by
    obtain ⟨hi, -⟩ := List.getElem?_eq_some_iff.mp h
    have hlength : (ends n (delays.take i)).length = i := by
      rw [length_ends, List.length_take, Nat.min_eq_left (Nat.le_of_lt hi)]
    rw [ends_take_succ n h, List.getElem?_append_right (Nat.le_of_eq hlength), hlength,
      Nat.sub_self]
    rfl
  obtain ⟨later, hlater⟩ := ends_prefix n (delays.take (i + 1)) (delays.drop (i + 1))
  rw [List.take_append_drop] at hlater
  rw [← hlater, List.getElem?_append_left (List.getElem?_eq_some_iff.mp hfirst).1, hfirst]

theorem makespan_le_iff : makespan n delays ≤ t ↔ ∀ e ∈ ends n delays, e ≤ t := by
  rw [makespan]
  induction ends n delays with
  | nil => simp
  | cons e ends ih => simp [ih]

theorem le_makespan {e : Nat} (h : e ∈ ends n delays) : e ≤ makespan n delays :=
  makespan_le_iff.mp (Nat.le_refl _) e h

/-! ## Elements that come with their ends -/

theorem start_take {i k : Nat} (hi : i ≤ k) : start n (delays.take k) i = start n delays i := by
  rw [start, start, List.take_take, Nat.min_eq_left hi]

theorem forall₂_ends {β : Type} {l : List β} {P : β → Nat → Prop}
    (h : ∀ i b, l[i]? = some b → ∃ d, delays[i]? = some d ∧ P b (start n delays i + d)) :
    List.Forall₂ P l (ends n (delays.take l.length)) := by
  have hlength : l.length ≤ delays.length := by
    by_contra hlt
    have hlt : delays.length < l.length := Nat.lt_of_not_le hlt
    obtain ⟨d, hd, -⟩ := h delays.length l[delays.length] (List.getElem?_eq_getElem hlt)
    rw [List.getElem?_eq_none (Nat.le_refl _)] at hd
    cases hd
  refine List.forall₂_iff_get.mpr ⟨by simp [hlength], fun i hi hi' => ?_⟩
  obtain ⟨d, hd, hP⟩ := h i l[i] (List.getElem?_eq_getElem hi)
  have hd' : (delays.take l.length)[i]? = some d := by rw [List.getElem?_take, if_pos hi, hd]
  have hend := getElem?_ends n hd'
  rw [start_take (Nat.le_of_lt hi)] at hend
  rw [List.get_eq_getElem, List.get_eq_getElem, (List.getElem?_eq_some_iff.mp hend).2]
  exact hP

theorem countP_le_of_forall₂ {β γ : Type} {p : β → Bool} {q : γ → Bool} {l : List β} {l' : List γ}
    (h : List.Forall₂ (fun b c => p b = true → q c = true) l l') : l.countP p ≤ l'.countP q := by
  induction h with
  | nil => exact Nat.le_refl _
  | @cons b c l l' hbc _ ih =>
    rw [List.countP_cons, List.countP_cons]
    cases hb : p b with
    | true =>
      rw [if_pos rfl, if_pos (hbc hb)]
      omega
    | false =>
      rw [if_neg Bool.false_ne_true]
      omega

/-! ## Equal delays -/

theorem countP_range_lt (k c : Nat) : (List.range k).countP (· < c) = min k c := by
  induction k with
  | zero => simp
  | succ k ih =>
    rw [List.range_succ, List.countP_append, ih, List.countP_singleton]
    by_cases hkc : k < c
    · simp only [hkc, decide_true, if_true]
      omega
    · simp only [hkc, decide_false, Bool.false_eq_true, if_false]
      omega

theorem nextStart_rounds (hn : 0 < n) (k d : Nat) :
    nextStart n ((List.range k).map fun i => (i / n + 1) * d) = k / n * d := by
  by_cases hk : k < n
  · rw [nextStart_of_lt (by simpa using hk), Nat.div_eq_of_lt hk, Nat.zero_mul]
  · have hrounds : k / n * n ≤ k := Nat.div_mul_le_self k n
    have hnext : k < k / n * n + n := by
      have hmod := Nat.mod_lt k hn
      have hdiv := Nat.div_add_mod' k n
      omega
    have hbefore : (k / n - 1) * n + n = k / n * n := by
      have hpos : 0 < k / n := Nat.div_pos (Nat.le_of_not_lt hk) hn
      rw [← Nat.succ_mul, Nat.succ_eq_add_one, Nat.sub_add_cancel hpos]
    refine nextStart_eq ?_ ?_
    · -- Whoever has ended before belongs to a round before the last.
      have hle : (List.range k).countP (fun i => decide ((i / n + 1) * d < k / n * d)) ≤
          (List.range k).countP (· < (k / n - 1) * n) := by
        refine List.countP_mono_left fun i _ hi => decide_eq_true ?_
        have hround := Nat.lt_of_mul_lt_mul_right (of_decide_eq_true hi)
        exact (Nat.div_lt_iff_lt_mul hn).mp (by omega)
      rw [countP_range_lt] at hle
      simp only [List.countP_map, Function.comp_def, List.length_map, List.length_range]
      omega
    · have hle : (List.range k).countP (· < k / n * n) ≤
          (List.range k).countP (fun i => decide ((i / n + 1) * d ≤ k / n * d)) := by
        refine List.countP_mono_left fun i _ hi => decide_eq_true ?_
        have hround := (Nat.div_lt_iff_lt_mul hn).mpr (of_decide_eq_true hi)
        exact Nat.mul_le_mul_right d hround
      rw [countP_range_lt] at hle
      simp only [List.countP_map, Function.comp_def, List.length_map, List.length_range]
      omega

theorem ends_replicate (hn : 0 < n) (k d : Nat) :
    ends n (List.replicate k d) = (List.range k).map fun i => (i / n + 1) * d := by
  induction k with
  | zero => rfl
  | succ k ih =>
    rw [List.replicate_succ', ends_concat, ih, nextStart_rounds hn, List.range_succ,
      List.map_append, List.map_singleton, Nat.succ_mul]

/-- With the same delay for all, elements come in rounds of `n` (`nextStart_rounds`), and there are
as many rounds as it takes. -/
theorem makespan_replicate (hn : 0 < n) (k d : Nat) :
    makespan n (List.replicate k d) = (k + n - 1) / n * d := by
  cases k with
  | zero => simp [makespan, ends, Nat.div_eq_of_lt (Nat.sub_lt hn Nat.one_pos)]
  | succ k =>
    have hrounds : (k + 1 + n - 1) / n = k / n + 1 := by
      rw [Nat.add_right_comm, Nat.add_sub_cancel, Nat.add_div_right k hn]
    rw [hrounds]
    refine Nat.le_antisymm (makespan_le_iff.mpr fun e he => ?_) (le_makespan ?_)
    · rw [ends_replicate hn] at he
      obtain ⟨i, hi, rfl⟩ := List.mem_map.mp he
      have hle := Nat.div_le_div_right (c := n) (Nat.le_of_lt_succ (List.mem_range.mp hi))
      exact Nat.mul_le_mul_right d (Nat.succ_le_succ hle)
    · rw [ends_replicate hn]
      exact List.mem_map.mpr ⟨k, List.mem_range.mpr (Nat.lt_succ_self k), rfl⟩

end ListSchedule

end WorkBundle
