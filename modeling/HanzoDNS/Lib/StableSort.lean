import Mathlib

open List

-- The same elements in the order of their ranks. Those with the same rank keep their order.
structure StableSort (rank : α → Nat) (l out : List α) : Prop where
  perm : out.Perm l
  sorted : out.Pairwise (rank · ≤ rank ·)
  stable : ∀ k, out.filter (rank · = k) = l.filter (rank · = k)

-- What a sort that goes through the ranks has put out before some rank.
structure StableSort.Below (rank : α → Nat) (l : List α) (n : Nat) (out : List α) : Prop where
  below : ∀ a ∈ out, rank a < n
  sorted : out.Pairwise (rank · ≤ rank ·)
  stable : ∀ k < n, out.filter (rank · = k) = l.filter (rank · = k)

namespace StableSort

variable {rank : α → Nat} {n : Nat} {l out : List α}

theorem Below.nil : Below rank l 0 [] where
  below := by simp
  sorted := .nil
  stable := by simp

theorem Below.succ (h : Below rank l n out) : Below rank l (n + 1) (out ++ l.filter (rank · = n)) where
  below a ha := by
    obtain ha | ha := mem_append.mp ha
    case inl => exact Nat.lt_succ_of_lt (h.below a ha)
    case inr => simp_all
  sorted := by
    refine pairwise_append.mpr ⟨h.sorted, pairwise_of_forall_mem_list ?_, ?_⟩
    · simp_all
    · intro a ha b hb
      have hb : rank b = n := by simp_all
      exact hb ▸ (h.below a ha).le
  stable k hk := by
    rw [filter_append, filter_filter]
    by_cases hn : k = n
    case pos =>
      subst hn
      have hl : out.filter (rank · = k) = [] := by
        simp only [filter_eq_nil_iff, decide_eq_true_iff]
        exact fun a ha => (h.below a ha).ne
      rw [hl]
      simp
    case neg =>
      have hl : (l.filter fun a => decide (rank a = k) && decide (rank a = n)) = [] := by
        simp only [filter_eq_nil_iff, Bool.and_eq_true, decide_eq_true_iff]
        omega
      rw [hl, append_nil, h.stable k (by omega)]

theorem Below.stableSort (h : Below rank l n out) (hl : ∀ a ∈ l, rank a < n) : StableSort rank l out := by
  classical
  have hs (k : Nat) : out.filter (rank · = k) = l.filter (rank · = k) := by
    by_cases hk : k < n
    case pos => exact h.stable k hk
    case neg =>
      have hn : ∀ l' : List α, (∀ a ∈ l', rank a < n) → l'.filter (rank · = k) = [] := by
        intro l' hl'
        simp only [filter_eq_nil_iff, decide_eq_true_iff]
        exact fun a ha he => hk (he ▸ hl' a ha)
      rw [hn out h.below, hn l hl]
  refine ⟨perm_iff_count.mpr fun a => ?_, h.sorted, hs⟩
  have hc (l' : List α) : l'.count a = (l'.filter (rank · = rank a)).count a := by simp [count_filter]
  rw [hc out, hc l, hs]

end StableSort
