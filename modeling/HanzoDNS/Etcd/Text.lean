import Mathlib

open List

namespace Etcd

def splitFrom (s : List UInt8) (p i : Nat) : List (List UInt8) :=
  if s.length < i then
    [s.drop p]
  else
    (s.take i).drop p :: splitFrom s (p + 255) (i + 255)
termination_by s.length + 1 - i

-- A string of bytes, not of characters: a chunk can end inside a character.
def split255 (s : List UInt8) : List (List UInt8) :=
  if s.length < 255 then [s] else splitFrom s 0 255

structure Chunks (s : List UInt8) (xs : List (List UInt8)) : Prop where
  flatten : xs.flatten = s
  length_le : ∀ x ∈ xs, x.length ≤ 255
  full : ∀ x ∈ xs.dropLast, x.length = 255
  nonempty : [] ∈ xs → s = []

variable {s : List UInt8} {p : Nat}

-- The chunks before the last one are full, and the last one is not, though there may be nothing in it.
theorem exists_splitFrom (h : p ≤ s.length) : ∃ xs x, splitFrom s p (p + 255) = xs ++ [x] ∧
    (∀ x ∈ xs, x.length = 255) ∧ x.length < 255 ∧ xs.flatten ++ x = s.drop p := by
  induction hk : s.length - p using Nat.strong_induction_on generalizing p
  case h k hi =>
    rw [splitFrom]
    split
    case isTrue hl => exact ⟨[], s.drop p, rfl, by simp, by simp; omega, rfl⟩
    case isFalse hl =>
      obtain ⟨xs, x, he, hf, hx, hd⟩ := hi (s.length - (p + 255)) (by omega) (by omega) rfl
      refine ⟨(s.take (p + 255)).drop p :: xs, x, by rw [he]; rfl, ?_, hx, ?_⟩
      · simp only [mem_cons, forall_eq_or_imp, length_drop, length_take]
        exact ⟨by omega, hf⟩
      · rw [flatten_cons, append_assoc, hd, drop_take, Nat.add_sub_cancel_left, ←drop_drop, take_append_drop]

theorem exists_split255 (s : List UInt8) : ∃ xs x, split255 s = xs ++ [x] ∧
    (∀ x ∈ xs, x.length = 255) ∧ x.length < 255 ∧ xs.flatten ++ x = s := by
  rw [split255]
  split
  case isTrue h => exact ⟨[], s, rfl, by simp, h, rfl⟩
  case isFalse h => exact exists_splitFrom (Nat.zero_le _)

theorem split255_chunks_iff (s : List UInt8) : Chunks s (split255 s) ↔ s = [] ∨ ¬255 ∣ s.length := by
  obtain ⟨xs, x, he, hf, hx, hs⟩ := exists_split255 s
  have hl : s.length = 255 * xs.length + x.length := by
    have hxs : xs.flatten.length = 255 * xs.length := by
      rw [length_flatten, map_congr_left hf, map_const', sum_replicate, smul_eq_mul, Nat.mul_comm]
    rw [←hs, length_append, hxs]
  rw [he]
  constructor
  case mp =>
    intro h
    by_contra hn
    obtain ⟨hn, hd⟩ := not_or.mp hn
    have hx : x = [] := eq_nil_of_length_eq_zero (by omega)
    exact hn (h.nonempty (by simp [hx]))
  case mpr =>
    intro h
    constructor
    case flatten => simpa using hs
    case length_le =>
      intro y hy
      obtain hy | hy := mem_append.mp hy
      · exact (hf y hy).le
      · exact mem_singleton.mp hy ▸ hx.le
    case full => simpa using hf
    case nonempty =>
      intro hm
      refine h.resolve_right (not_not.mpr ?_)
      obtain hm | hm := mem_append.mp hm
      · exact absurd (hf [] hm) (by decide)
      · exact ⟨xs.length, by rw [hl, ←mem_singleton.mp hm]; rfl⟩

theorem nil_mem_split255 (h : s.length = 255) : [] ∈ split255 s := by
  rw [split255, if_neg (by omega), splitFrom, if_neg (by omega), splitFrom, if_pos (by omega)]
  simp [h]

-- A text that fills a chunk is followed by an empty one.
theorem not_split255_chunks : ¬Chunks (replicate 255 97) (split255 (replicate 255 97)) :=
  fun h => absurd (h.nonempty (nil_mem_split255 length_replicate)) replicate_succ_ne_nil

end Etcd
