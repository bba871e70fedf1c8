import Mathlib

open List

-- Grouping a stream into batches of limited weight. A batch is closed as soon as the next element does not fit
-- anymore, so only a batch of one element can be too heavy.
namespace Batch

structure State (α : Type) where
  sent : List (List α) := []
  batch : List α := []
  size : Nat := 0

variable {α : Type} (limit : Nat) (weight : α → Nat)

namespace State

def flush (s : State α) : State α where
  sent := s.sent ++ [s.batch]

def add (s : State α) (a : α) : State α :=
  let s := if s.batch ≠ [] ∧ limit < s.size + weight a then s.flush else s
  { s with batch := s.batch ++ [a], size := s.size + weight a }

def stream (s : State α) : List α :=
  s.sent.flatten ++ s.batch

end State

def held (as : List α) : Nat :=
  match as with
  | [] => 0
  | a :: as => as.foldl (fun n a => if limit < n + weight a then weight a else n + weight a) (weight a)

-- The last element does not fit into a batch with the ones before it.
def Overruns (as : List α) : Prop :=
  ∃ init last, as = init ++ [last] ∧ init ≠ [] ∧ limit < held limit weight init + weight last

def Fits (as : List α) : Prop :=
  (as.map weight).sum ≤ limit ∨ as.length = 1

structure State.Valid (s : State α) : Prop where
  size : s.size = (s.batch.map weight).sum
  sent : ∀ b ∈ s.sent, Fits limit weight b
  batch : s.batch ≠ [] → Fits limit weight s.batch
  -- Only before the first element is there no open batch.
  «open» : s.batch = [] → s.sent = []

variable {limit weight} {s : State α} {as : List α} {a : α}

namespace State

theorem add_of_fits (h : s.batch = [] ∨ s.size + weight a ≤ limit) :
    s.add limit weight a = { s with batch := s.batch ++ [a], size := s.size + weight a } := by
  have hc : ¬(s.batch ≠ [] ∧ limit < s.size + weight a) := by
    rintro ⟨hb, hl⟩
    exact h.elim hb (Nat.not_le.mpr hl)
  rw [add, if_neg hc]

theorem add_of_overruns (hb : s.batch ≠ []) (hl : limit < s.size + weight a) :
    s.add limit weight a = { sent := s.sent ++ [s.batch], batch := [a], size := weight a } := by
  simp [add, flush, hb, hl]

variable (limit weight s a) in
theorem add_cases : ((s.batch = [] ∨ s.size + weight a ≤ limit) ∧
      s.add limit weight a = { s with batch := s.batch ++ [a], size := s.size + weight a }) ∨
    ((s.batch ≠ [] ∧ limit < s.size + weight a) ∧
      s.add limit weight a = { sent := s.sent ++ [s.batch], batch := [a], size := weight a }) := by
  by_cases h : s.batch = [] ∨ s.size + weight a ≤ limit
  case pos => exact .inl ⟨h, add_of_fits h⟩
  case neg =>
    obtain ⟨hb, hl⟩ := not_or.mp h
    have hl := Nat.not_le.mp hl
    exact .inr ⟨⟨hb, hl⟩, add_of_overruns hb hl⟩

theorem stream_add : (s.add limit weight a).stream = s.stream ++ [a] := by
  obtain ⟨-, h⟩ | ⟨-, h⟩ := add_cases limit weight s a
  all_goals simp [h, stream]

theorem batch_add_ne_nil : (s.add limit weight a).batch ≠ [] := by
  obtain ⟨-, h⟩ | ⟨-, h⟩ := add_cases limit weight s a
  all_goals simp [h]

theorem Valid.empty : Valid limit weight ({} : State α) where
  size := rfl
  sent := forall_mem_nil _
  batch := fun h => absurd rfl h
  «open» := fun _ => rfl

theorem Valid.add (v : s.Valid limit weight) : (s.add limit weight a).Valid limit weight := by
  have ho : (s.add limit weight a).batch = [] → (s.add limit weight a).sent = [] :=
    fun hb => absurd hb batch_add_ne_nil
  obtain ⟨hf, h⟩ | ⟨⟨hb, -⟩, h⟩ := add_cases limit weight s a
  case inl =>
    refine ⟨by simp [h, v.size], by simpa [h] using v.sent, fun _ => ?_, ho⟩
    rw [h, Fits, map_append, sum_append, ←v.size]
    obtain hb | hl := hf
    · exact .inr (by simp [hb])
    · exact .inl (by simpa using hl)
  case inr =>
    refine ⟨by simp [h], fun b hm => ?_, fun _ => .inr (by simp [h]), ho⟩
    rw [h] at hm
    obtain hm | hm := mem_append.mp hm
    · exact v.sent b hm
    · exact mem_singleton.mp hm ▸ v.batch hb

end State

section Run

variable (limit weight) in
def run (as : List α) : State α :=
  as.foldl (State.add limit weight) {}

theorem run_concat : run limit weight (as ++ [a]) = (run limit weight as).add limit weight a := by
  simp [run]

theorem stream_run : (run limit weight as).stream = as := by
  induction as using List.reverseRecOn
  case nil => rfl
  case append_singleton => simp [run_concat, State.stream_add, *]

theorem valid_run : (run limit weight as).Valid limit weight := by
  induction as using List.reverseRecOn
  case nil => exact .empty
  case append_singleton as a hi => exact run_concat ▸ hi.add

theorem batch_run_eq_nil_iff : (run limit weight as).batch = [] ↔ as = [] := by
  constructor
  case mp =>
    intro h
    have hs : (run limit weight as).stream = as := stream_run
    simpa [State.stream, h, valid_run.open h] using hs.symm
  case mpr =>
    rintro rfl
    rfl

theorem held_concat (h : as ≠ []) : held limit weight (as ++ [a]) =
    if limit < held limit weight as + weight a then weight a else held limit weight as + weight a := by
  cases as
  case nil => contradiction
  case cons =>
    rw [cons_append, held, foldl_append]
    rfl

theorem size_run : (run limit weight as).size = held limit weight as := by
  induction as using List.reverseRecOn
  case nil => rfl
  case append_singleton as a hi =>
    rw [run_concat]
    by_cases has : as = []
    case pos => simp [has, run, State.add, held]
    case neg =>
      rw [held_concat has, ←hi]
      obtain ⟨hf, h⟩ | ⟨⟨-, hl⟩, h⟩ := State.add_cases limit weight (run limit weight as) a
      case inl =>
        rw [batch_run_eq_nil_iff] at hf
        rw [h, if_neg (Nat.not_lt.mpr (hf.resolve_left has))]
      case inr => rw [h, if_pos hl]

theorem overruns_concat : Overruns limit weight (as ++ [a]) ↔
    as ≠ [] ∧ limit < held limit weight as + weight a := by
  constructor
  case mp =>
    rintro ⟨init, last, h, hi, hl⟩
    obtain ⟨rfl, hs⟩ := append_inj' h rfl
    obtain rfl := singleton_inj.mp hs
    exact ⟨hi, hl⟩
  case mpr =>
    rintro ⟨hi, hl⟩
    exact ⟨as, a, rfl, hi, hl⟩

theorem Overruns.one_lt_length (h : Overruns limit weight as) : 1 < as.length := by
  obtain ⟨init, last, rfl, hi, -⟩ := h
  have := length_pos_of_ne_nil hi
  rw [length_append, length_singleton]
  omega

theorem length_batch_run_eq_one_iff : (run limit weight as).batch.length = 1 ↔
    as.length = 1 ∨ Overruns limit weight as := by
  obtain rfl | ⟨as, a, rfl⟩ := eq_nil_or_concat as
  case inl => simp [run, Overruns]
  case inr =>
    rw [concat_eq_append, overruns_concat, run_concat, ←size_run]
    obtain ⟨hf, h⟩ | ⟨⟨hb, hl⟩, h⟩ := State.add_cases limit weight (run limit weight as) a
    case inl =>
      rw [batch_run_eq_nil_iff] at hf
      have hl (hn : as ≠ []) : ¬limit < (run limit weight as).size + weight a :=
        Nat.not_lt.mpr (hf.resolve_left hn)
      simp only [h, length_append, length_singleton, Nat.add_eq_right, length_eq_zero_iff,
        batch_run_eq_nil_iff]
      constructor
      case mp => exact .inl
      case mpr => exact fun h => h.elim id fun h => absurd h.2 (hl h.1)
    case inr =>
      rw [Ne, batch_run_eq_nil_iff] at hb
      simp [h, hb, hl]

end Run
end Batch
