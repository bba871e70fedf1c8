import HanzoDNS.Lib.Strings

-- The URL encoding of Go's base64 package.
namespace Base64

def digit (c : Char) : Option Nat :=
  if 'A' ≤ c ∧ c ≤ 'Z' then some (c.toNat - 65)
  else if 'a' ≤ c ∧ c ≤ 'z' then some (c.toNat - 71)
  else if '0' ≤ c ∧ c ≤ '9' then some (c.toNat + 4)
  else if c = '-' then some 62
  else if c = '_' then some 63
  else none

-- The bytes that are complete after some digits. Left over bits are not looked at.
def octets (digits : List Nat) : List UInt8 :=
  match digits with
  | [a, b, c, d] => [UInt8.ofNat (4 * a + b / 16), UInt8.ofNat (16 * b + c / 4), UInt8.ofNat (64 * c + d)]
  | [a, b, c] => [UInt8.ofNat (4 * a + b / 16), UInt8.ofNat (16 * b + c / 4)]
  | [a, b] => [UInt8.ofNat (4 * a + b / 16)]
  | _ => []

-- Padding is only found in the last group of four.
def groups : Str → Option (List UInt8)
  | [] => some []
  | [a, b, '=', '='] => ([a, b].mapM digit).map octets
  | [a, b, c, '='] => ([a, b, c].mapM digit).map octets
  | a :: b :: c :: d :: rest => do
    let digits ← [a, b, c, d].mapM digit
    let bytes ← groups rest
    return octets digits ++ bytes
  | _ => none

-- Line breaks are skipped.
def decodeString (s : Str) : Option (List UInt8) :=
  groups (s.filter fun c => c ≠ '\n' ∧ c ≠ '\r')

end Base64
