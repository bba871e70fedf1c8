import Mathlib.Algebra.Order.Floor.Div
import Mathlib.Data.List.TakeDrop

open List

-- Lists that are handed out in pages, which are counted from one.
namespace Pages

variable {α β : Type} {as : List α} {bs : List β} {n k : Nat}

def page (as : List α) (n k : Nat) : List α :=
  (as.drop ((k - 1) * n)).take n

def total (as : List α) (n : Nat) : Nat :=
  as.length ⌈/⌉ n

theorem page_one : page as n 1 = as.take n := by
  simp [page]

theorem take_append_page (hk : 0 < k) : as.take ((k - 1) * n) ++ page as n k = as.take (k * n) := by
  rw [page, ← take_add, ← Nat.succ_mul, Nat.succ_eq_add_one, Nat.sub_add_cancel hk]

theorem total_le_iff (hn : 0 < n) : total as n ≤ k ↔ as.length ≤ k * n := by
  rw [total, ceilDiv_le_iff_le_mul hn, Nat.mul_comm]

theorem mapM_eq_some_iff {f : α → Option β} : as.mapM f = some bs ↔ as.map f = bs.map some := by
  induction as generalizing bs
  case nil => cases bs <;> simp
  case cons a as ih =>
    simp only [mapM_cons, Option.bind_eq_bind, Option.bind_eq_some_iff, ih, Option.pure_def, Option.some.injEq]
    cases bs
    case nil => simp
    case cons b bs => simp

theorem mapM_page {f : α → Option β} (h : as.mapM f = some bs) : (page as n k).mapM f = some (page bs n k) := by
  rw [mapM_eq_some_iff] at h ⊢
  rw [page, page, map_take, map_drop, h, map_take, map_drop]

theorem length_of_mapM {f : α → Option β} (h : as.mapM f = some bs) : as.length = bs.length := by
  have := congrArg List.length (mapM_eq_some_iff.mp h)
  simpa using this

end Pages
