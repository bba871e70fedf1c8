import HanzoDNS.Dns.Labels

open Dns

namespace File

def isDigit (b : UInt8) : Bool :=
  48 ≤ b ∧ b ≤ 57

def dddToByte (c d e : UInt8) : UInt8 :=
  (c - 48) * 100 + (d - 48) * 10 + (e - 48)

-- Moves the bytes from `i + 3` on three places down, up to where the last three of `lb` bytes begin.
def shift (b : List UInt8) (i lb : Nat) : List UInt8 :=
  (List.range' i (lb - 3 - i)).foldl (fun b j => b.set j (b.getD (j + 3) 0)) b

-- Decodes in place: the first `lb` bytes are the label, of which those before `i` are done. What the
-- label no longer needs stays behind it.
def doDDDFrom : (fuel i lb : Nat) → List UInt8 → List UInt8
  | 0, _, _, b => b
  | fuel + 1, i, lb, b =>
    if i < lb then
      match b.drop i with
      | 92 :: c :: d :: e :: _ =>
        if i + 3 < lb ∧ isDigit c ∧ isDigit d ∧ isDigit e then
          doDDDFrom fuel (i + 1) (lb - 3) (shift (b.set i (dddToByte c d e)) (i + 1) lb)
        else
          doDDDFrom fuel (i + 1) lb b
      | _ => doDDDFrom fuel (i + 1) lb b
    else
      b

def doDDD (b : List UInt8) : List UInt8 :=
  doDDDFrom b.length 0 b.length b

def labelKey (s : Str) : List UInt8 :=
  doDDD (Strings.bytes (Strings.toLower s))

section

variable (dns : Labels)

-- Compares label by label from the right. The strings are what is left of the names.
def lessFrom : (fuel : Nat) → (a b : Str) → Option Ordering
  | 0, _, _ => none
  | fuel + 1, a, b =>
    let (ai, oka) := dns.prevLabel a 1
    let (bi, okb) := dns.prevLabel b 1
    if oka ∧ okb then
      some .eq
    else
      match compare (labelKey (a.drop ai)) (labelKey (b.drop bi)) with
      | .eq => lessFrom fuel (a.take ai) (b.take bi)
      | res => some res

def less (a b : Str) : Option Ordering :=
  lessFrom dns (a.length + 1) a b

end
end File
