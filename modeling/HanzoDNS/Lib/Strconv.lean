import HanzoDNS.Lib.Strings

namespace Strconv

def digits (s : Str) : Option Nat :=
  if s ≠ [] ∧ s.all Char.isDigit then
    some (s.foldl (fun n c => 10 * n + (c.toNat - 48)) 0)
  else
    none

def parseUint (s : Str) (bits : Nat) : Option Nat :=
  (digits s).filter (· < 2 ^ bits)

-- Numbers have 64 bits.
def atoi : Str → Option Int
  | '-' :: s => (digits s).bind fun n => if n ≤ 2 ^ 63 then some (-n) else none
  | '+' :: s => (digits s).bind fun n => if n < 2 ^ 63 then some n else none
  | s => (digits s).bind fun n => if n < 2 ^ 63 then some n else none

def itoa (n : Int) : Str :=
  (toString n).toList

theorem itoa_natCast (n : Nat) : itoa n = Nat.toDigits 10 n := by
  have hs : toString (n : Int) = toString n := rfl
  rw [itoa, hs, Nat.toString_eq_ofList_toDigits, String.toList_ofList]

theorem isDigit_of_mem_itoa {n : Nat} {c : Char} (h : c ∈ itoa n) : c.isDigit := by
  rw [itoa_natCast] at h
  exact Nat.isDigit_of_mem_toDigits (by decide) (by decide) h

theorem digits_itoa (n : Nat) : digits (itoa n) = some n := by
  have hd : (itoa n).all Char.isDigit := List.all_eq_true.mpr fun c => isDigit_of_mem_itoa
  rw [itoa_natCast] at hd ⊢
  rw [digits, if_pos ⟨Nat.toDigits_ne_nil, hd⟩]
  exact congrArg some (Nat.ofDigitChars_toDigits (by decide) (by decide))

theorem parseUint_itoa {n bits : Nat} (h : n < 2 ^ bits) : parseUint (itoa n) bits = some n := by
  rw [parseUint, digits_itoa]
  exact Option.filter_some_pos (decide_eq_true h)

theorem atoi_itoa {n : Nat} (h : n < 2 ^ 63) : atoi (itoa n) = some (n : Int) := by
  have hd (c : Char) (hc : c ∈ itoa n) : c.isDigit := isDigit_of_mem_itoa hc
  unfold atoi
  split
  -- There is no sign.
  case h_1 hs => exact absurd (hd '-' (hs ▸ .head _)) (by decide)
  case h_2 hs => exact absurd (hd '+' (hs ▸ .head _)) (by decide)
  case h_3 => rw [digits_itoa, Option.bind_some, if_pos h]

end Strconv
