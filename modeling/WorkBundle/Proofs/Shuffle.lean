import Mathlib.Data.List.Basic

/-!
# Shuffles

A shuffle of several sequences keeps each of them in order and mixes them in any way. It is given
by tags: every entry says which sequence it is from, and the entries with one tag are that
sequence. So no entry is lost, none is there twice, and none is from nowhere.
-/

set_option autoImplicit false

namespace WorkBundle

variable {β : Type}

/-- The entries with this tag, in order. `IsShuffle` compares these with the sequences. -/
def shareOf (k : Nat) (tagged : List (Nat × β)) : List β :=
  (tagged.filter (·.1 == k)).map (·.2)

/-- The list is a shuffle of the sequences: its entries can be tagged so that `shareOf` each tag is
the sequence of that number. Tags are needed because equal entries of two sequences cannot be told
apart. -/
def IsShuffle (sequences : List (List β)) (l : List β) : Prop :=
  ∃ tagged : List (Nat × β), tagged.map (·.2) = l ∧
    ∀ k, shareOf k tagged = (sequences[k]?).getD []

@[simp] theorem shareOf_nil (k : Nat) : shareOf k ([] : List (Nat × β)) = [] := rfl

@[simp] theorem shareOf_append (k : Nat) (l l' : List (Nat × β)) :
    shareOf k (l ++ l') = shareOf k l ++ shareOf k l' := by
  simp [shareOf]

theorem shareOf_cons_self (k : Nat) (x : β) (l : List (Nat × β)) :
    shareOf k ((k, x) :: l) = x :: shareOf k l := by
  simp [shareOf]

theorem shareOf_cons_other {k n : Nat} (h : k ≠ n) (x : β) (l : List (Nat × β)) :
    shareOf k ((n, x) :: l) = shareOf k l := by
  have hne : n ≠ k := h.symm
  simp [shareOf, hne]

@[simp] theorem map_snd_tag (n : Nat) (l : List β) : (l.map (n, ·)).map (·.2) = l := by
  rw [List.map_map]
  exact List.map_id l

theorem shareOf_self (k : Nat) (l : List β) : shareOf k (l.map (k, ·)) = l := by
  simp [shareOf, List.filter_map, Function.comp_def]

theorem shareOf_other {k n : Nat} (h : k ≠ n) (l : List β) : shareOf k (l.map (n, ·)) = [] := by
  have hne : n ≠ k := h.symm
  simp [shareOf, hne]

theorem isShuffle_nil {l : List β} (h : IsShuffle [] l) : l = [] := by
  obtain ⟨tagged, rfl, hshares⟩ := h
  rw [List.map_eq_nil_iff, List.eq_nil_iff_forall_not_mem]
  intro x hx
  have hmem : x.2 ∈ shareOf x.1 tagged :=
    List.mem_map.mpr ⟨x, List.mem_filter.mpr ⟨hx, by simp⟩, rfl⟩
  rw [hshares x.1] at hmem
  cases hmem

end WorkBundle
