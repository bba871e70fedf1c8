import Mathlib

open List

-- Binary search, as the standard library of Go has it.
namespace Search

-- The loop halves the interval, so the number of its turns is bounded by the length of the interval.
def loop (f : Nat → Bool) : (fuel i j : Nat) → Nat
  | 0, i, _ => i
  | fuel + 1, i, j =>
    if i < j then
      let h := (i + j) / 2
      if ¬f h then loop f fuel (h + 1) j else loop f fuel i h
    else
      i

def search (n : Nat) (f : Nat → Bool) : Nat :=
  loop f n 0 n

variable {f : Nat → Bool} {n : Nat}

structure Boundary (n : Nat) (f : Nat → Bool) (i : Nat) : Prop where
  le : i ≤ n
  before : ∀ k < i, ¬f k
  after : ∀ k < n, i ≤ k → f k

theorem boundary_loop (hf : ∀ k < n, ∀ l < n, k ≤ l → f k → f l) {fuel i j : Nat} (hij : i ≤ j) (hj : j ≤ n)
    (hfuel : j - i ≤ fuel) (before : ∀ k < i, ¬f k) (after : ∀ k < n, j ≤ k → f k) :
    Boundary n f (loop f fuel i j) := by
  induction fuel generalizing i j
  case zero =>
    obtain rfl : i = j := by omega
    exact ⟨hj, before, after⟩
  case succ fuel hi =>
    rw [loop]
    by_cases hlt : i < j
    case neg =>
      obtain rfl : i = j := by omega
      rw [if_neg hlt]
      exact ⟨hj, before, after⟩
    case pos =>
      rw [if_pos hlt]
      by_cases hh : f ((i + j) / 2)
      case pos =>
        rw [if_neg (not_not.mpr hh)]
        apply hi (by omega) (by omega) (by omega) before
        intro k hk hle
        exact hf _ (by omega) k hk hle hh
      case neg =>
        rw [if_pos hh]
        apply hi (by omega) hj (by omega) _ after
        intro k hk hfk
        exact hh (hf k (by omega) _ (by omega) (by omega) hfk)

theorem boundary_search (hf : ∀ k < n, ∀ l < n, k ≤ l → f k → f l) : Boundary n f (search n f) := by
  apply boundary_loop hf (Nat.zero_le n) le_rfl (Nat.sub_le ..)
  · intro k hk
    cases hk
  · intro k hk hle
    omega

section List

variable {l : List α} {p : α → Bool}

theorem search_list (hl : l.Pairwise fun a b => p a → p b) :
    (∀ a ∈ l.take (search l.length fun i => l[i]?.any p), ¬p a) ∧
    (∀ a ∈ l.drop (search l.length fun i => l[i]?.any p), p a) := by
  have hb : Boundary l.length (fun i => l[i]?.any p) (search l.length fun i => l[i]?.any p) := by
    apply boundary_search
    intro i hi j hj hij hp
    simp only [getElem?_eq_getElem hi, getElem?_eq_getElem hj, Option.any_some] at hp ⊢
    obtain rfl | hij := hij.eq_or_lt
    · exact hp
    · exact pairwise_iff_getElem.mp hl i j hi hj hij hp
  constructor
  · intro a ha
    obtain ⟨i, hi, rfl⟩ := mem_take_iff_getElem.mp ha
    have hil := Nat.lt_min.mp hi
    simpa [getElem?_eq_getElem hil.2] using hb.before i hil.1
  · intro a ha
    obtain ⟨i, hi, rfl⟩ := mem_drop_iff_getElem.mp ha
    rw [Nat.add_comm] at hi
    simpa [getElem?_eq_getElem hi] using hb.after _ hi (Nat.le_add_right ..)

end List
end Search
