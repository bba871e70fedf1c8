import Mathlib.Data.List.Basic

-- What a goroutine does with a channel that nobody else sends on, and what comes of it.
namespace Channel

inductive Op (α : Type*)
  | send (a : α)
  | close
deriving DecidableEq

inductive End
  | closed
  | waiting
  | panicked
deriving DecidableEq

variable {α : Type*}

-- What is received, and how it ends: a channel that is not closed keeps its receiver waiting, and one that is closed
-- must not be used again.
def run : List (Op α) → List α × End
  | [] => ([], .waiting)
  | .send a :: ops => (a :: (run ops).1, (run ops).2)
  | .close :: ops => ([], match ops with | [] => .closed | _ :: _ => .panicked)

variable {a : α} {as : List α} {ops : List (Op α)}

@[simp]
theorem run_sends_append : run (as.map .send ++ ops) = (as ++ (run ops).1, (run ops).2) := by
  induction as
  case nil => rfl
  case cons a as hi => simp [run, hi]

@[simp]
theorem run_close : run [(.close : Op α)] = ([], .closed) :=
  rfl

@[simp]
theorem run_close_append (h : ops ≠ []) : run (.close :: ops) = ([], .panicked) := by
  cases ops
  case nil => contradiction
  case cons => rfl

theorem run_eq_closed_iff : run ops = (as, .closed) ↔ ops = as.map .send ++ [.close] := by
  constructor
  case mpr =>
    rintro rfl
    simp
  case mp =>
    intro h
    induction ops generalizing as
    case nil => cases h
    case cons op ops hi =>
      cases op
      case send a =>
        have ha : a :: (run ops).1 = as := congrArg Prod.fst h
        have he : (run ops).2 = .closed := congrArg Prod.snd h
        have ho : ops = (run ops).1.map .send ++ [.close] := hi (Prod.ext rfl he)
        rw [←ha, List.map_cons, List.cons_append, ←ho]
      case close =>
        cases ops
        case nil =>
          cases h
          rfl
        case cons => cases h

end Channel
