import HanzoDNS.Lib.IPNet
import HanzoDNS.Dns.Reverse
import HanzoDNS.Dnsserver.Register

open Net (IP IPNet)
open Net.IP
open Dns Strconv

namespace Cidr

-- The functions of the libraries for names and networks, and what their documentation says about them.
structure Library extends Labels where
  -- The name of the address in a string.
  reverseAddr : Str → Option Str
  reverseAddr_string : ∀ ip, IsAddress ip → reverseAddr ip.string = some (reverseName ip)
  -- The network with a mask of some length after another one, and whether there are no more addresses.
  nextSubnet : IPNet → Nat → IPNet × Bool
  nextSubnet_ones : ∀ n : IPNet, n.ones ≤ n.bits → 2 ^ (n.bits - n.ones) ∣ n.ip.value →
    n.ip.value + 2 ^ (n.bits - n.ones) < 2 ^ n.bits →
    ∃ next : IPNet, nextSubnet n n.ones = (next, false) ∧ next.ones = n.ones ∧ next.ip.length = n.ip.length ∧
      next.ip.value = n.ip.value + 2 ^ (n.bits - n.ones)

variable (lib : Library)

-- Up to as many networks after another one as the first argument says.
def netsAfter (newPrefixLen : Nat) : Nat → IPNet → List IPNet
  | 0, _ => []
  | k + 1, n =>
    let (next, exceeds) := lib.nextSubnet n newPrefixLen
    next :: if exceeds then [] else netsAfter newPrefixLen k next

def nets (network : IPNet) (newPrefixLen : Nat) : List IPNet :=
  let maxSubnets := 2 ^ newPrefixLen / 2 ^ network.ones
  let first := { network with ones := newPrefixLen }
  first :: netsAfter lib newPrefixLen (maxSubnets - 1) first

-- Numbers are rounded up to the end of a label.
def split (n : IPNet) : List Str :=
  let boundary := if ':' ∈ n.string then 4 else 8
  if n.ones % boundary = 0 then
    [n.string]
  else
    let mask := (n.ones + boundary - 1) / boundary * boundary
    (nets lib n mask).map IPNet.string

def skipLabels (r : Str) : Nat → Nat → Nat
  | 0, offset => offset
  | k + 1, offset =>
    let (offset, stop) := lib.nextLabel r offset
    if stop then offset else skipLabels r k offset

-- The zone of a network. It is empty if the network cannot be read.
def reverseNet (net : Str) : Str :=
  match Net.parseCIDR net with
  | none => []
  | some (ip, n) =>
    match lib.reverseAddr ip.string with
    | none => []
    | some r =>
      let sizeDigit := if n.ip.length = 16 then 4 else 8
      let mod := (n.bits - n.ones) % sizeDigit
      let nearest := (n.bits - n.ones) + mod
      r.drop (skipLabels lib r (nearest / sizeDigit) 0)

def reverse (nets : List Str) : List Str :=
  nets.map (reverseNet lib)

-- The zones for a server block key without its port.
def reverseZones (s : Str) : Option (Str × List Str) :=
  (Net.parseCIDR s).map fun cidr =>
    match reverse lib (split lib cidr.2) with
    | [] => ([], [])
    | zone :: zones => (zone, zones)

end Cidr

namespace Plugin

def host (s : Str) : Str :=
  match cutLastColon s with
  | none => s
  | some (host, p) => if (atoi p).isSome then host else s

theorem splitHostPort_ok {dns : Labels} {reverse : Str → Option (Str × List Str)} {s port : Str} {hosts : List Str}
    (h : splitHostPort dns reverse s = .ok (hosts, port)) : ∃ p, splitHost dns reverse (host s) p = .ok (hosts, port) := by
  rw [splitHostPort] at h
  rw [host]
  cases hc : cutLastColon s
  case none =>
    simp only [hc] at h
    split at h
    case isTrue => cases h
    case isFalse => exact ⟨_, h⟩
  case some x =>
    simp only [hc] at h
    split at h
    case isTrue => cases h
    case isFalse =>
      split at h
      case h_1 hn => exact ⟨_, by simpa [hn] using h⟩
      case h_2 hn => exact ⟨_, by simpa [hn] using h⟩

end Plugin
