import Mathlib

-- The 64-bit FNV-1 hash.
namespace Fnv

def offset : UInt64 := 14695981039346656037

def prime : UInt64 := 1099511628211

def step (h : UInt64) (b : UInt8) : UInt64 :=
  (h * prime) ^^^ b.toUInt64

def write (h : UInt64) (bs : List UInt8) : UInt64 :=
  bs.foldl step h

def sum (bs : List UInt8) : UInt64 :=
  write offset bs

theorem write_append (h : UInt64) (as bs : List UInt8) : write h (as ++ bs) = write (write h as) bs :=
  List.foldl_append ..

-- The prime is odd, so that it has an inverse.
theorem mul_prime_injective : Function.Injective (· * prime) := by
  have hi : prime * 14886173955864302971 = 1 := by decide
  intro a b (h : a * prime = b * prime)
  have h := congrArg (· * 14886173955864302971) h
  simpa [UInt64.mul_assoc, hi] using h

theorem step_injective (b : UInt8) : Function.Injective (step · b) := by
  intro a a' (h : a * prime ^^^ b.toUInt64 = a' * prime ^^^ b.toUInt64)
  have h := congrArg (· ^^^ b.toUInt64) h
  simp only [UInt64.xor_assoc, UInt64.xor_self, UInt64.xor_zero] at h
  exact mul_prime_injective h

theorem write_injective (bs : List UInt8) : Function.Injective (write · bs) := by
  induction bs
  case nil => exact fun _ _ h => h
  case cons b bs hi => exact fun _ _ h => step_injective b (hi h)

end Fnv
