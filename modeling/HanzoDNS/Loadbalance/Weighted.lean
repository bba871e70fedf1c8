import HanzoDNS.Lib.Net
import HanzoDNS.Dns.Msg

open Dns Strings Strconv Net

-- The policy that puts one of the addresses of an answer first, according to weights from a file.
namespace Loadbalance

structure WeightItem where
  address : IP
  value : UInt8
deriving DecidableEq

-- A domain without weights is not told from one that is not in the file.
abbrev Domains := Str → List WeightItem

inductive ParseError
  | wrongDomain (name : Str)
  | wrongIP (addr : Str)
  | wrongWeight (value : Str)
  | missingDomain
  | wrongLine (line : Str)
  | tooLong
deriving DecidableEq

structure Parsing where
  dname : Str := []
  ws : List WeightItem := []
  domains : Domains := fun _ => []

def parseWeight (p : Parsing) (addr value : Str) : Except ParseError Parsing :=
  match IP.parse addr with
  | none => .error (.wrongIP addr)
  | some ip =>
    let weight := (parseUint value 8).getD 0
    if weight = 0 then
      .error (.wrongWeight value)
    else if p.dname = [] then
      .error .missingDomain
    else
      let ws := p.ws ++ [{ address := ip, value := UInt8.ofNat weight }]
      .ok { p with ws, domains := Function.update p.domains p.dname ws }

def parseLine (p : Parsing) (line : Str) : Except ParseError Parsing :=
  let nextLine := trimSpace line
  if nextLine = [] ∨ nextLine.head? = some '#' then
    .ok p
  else
    match fields nextLine with
    | [name] =>
      if (IP.parse name).isSome then
        .error (.wrongDomain name)
      else
        let dname := if hasSuffix name ['.'] then name else name ++ ['.']
        .ok { p with dname, ws := p.domains dname }
    | [addr, value] => parseWeight p addr value
    | _ => .error (.wrongLine nextLine)

def maxScanTokenSize : Nat := 65536

-- Lines are read one by one. What ends one, and an empty one at the end, is white space for the parser.
def parseWeights (content : Str) : Except ParseError Domains := do
  let p ← (content.splitOn '\n').foldlM (fun p line =>
    if len line ≥ maxScanTokenSize then .error .tooLong else parseLine p line) {}
  return p.domains

-- What is in the way of the content of the file, or the content.
inductive File
  | unopened
  | unread (err : Str)
  | content (content : Str)

inductive Error
  | errOpen
  | read (err : Str)
  | parse (err : ParseError)
deriving DecidableEq

-- The checksum of no file has been stored at the start.
structure WeightedRR (δ : Type) where
  md5sum : δ
  domains : Domains := fun _ => []

def WeightedRR.updateWeights [DecidableEq δ] (md5 : Str → δ) (w : WeightedRR δ) : File → Option Error × WeightedRR δ
  | .unopened => (some .errOpen, w)
  | .unread err => (some (.read err), w)
  | .content content =>
    if md5 content = w.md5sum then
      (none, w)
    else
      let w := { w with md5sum := md5 content }
      match parseWeights content with
      | .error err => (some (.parse err), w)
      | .ok domains => (none, { w with domains })

def isAddress (rr : RR) : Bool :=
  rr.rrtype = .a ∨ rr.rrtype = .aaaa

def address (rr : RR) : Option IP :=
  match rr.data with
  | .other _ text _ => IP.parse text
  | _ => none

section

variable (domains : Domains)

def weight (ar : RR) : UInt8 :=
  ((domains ar.name).find? fun w => address ar = some w.address).elim 1 (·.value)

def wsum (addresses : List RR) : Nat :=
  (addresses.map fun ar => (weight domains ar).toNat).sum

def selectTop (v : Nat) : (psum : Nat) → List (Nat × UInt8) → Option Nat
  | _, [] => none
  | psum, (i, w) :: waddrs => if v < psum + w.toNat then some i else selectTop v (psum + w.toNat) waddrs

-- Addresses with larger weights come first. Those with the same weight are in any order.
structure Sorts (sort : List (Nat × UInt8) → List (Nat × UInt8)) : Prop where
  perm : ∀ l, (sort l).Perm l
  sorted : ∀ l, (sort l).Pairwise (·.2 ≥ ·.2)

variable (sort : List (Nat × UInt8) → List (Nat × UInt8))

def topAddressIndex (addresses : List RR) (v : Nat) : Option Nat :=
  selectTop v 0 (sort (addresses.zipIdx.map fun ar => (ar.2, weight domains ar.1)))

def setTopRecord (addresses : List RR) (v : Nat) : List RR :=
  match topAddressIndex domains sort addresses v with
  | none => addresses
  | some itop =>
    match addresses[0]?, addresses[itop]? with
    | some first, some top => (addresses.set 0 top).set itop first
    | _, _ => addresses

def weightedRoundRobin (rrs : List RR) (v : Nat) : List RR :=
  let cname := rrs.filter (·.rrtype = .cname)
  let addresses := rrs.filter isAddress
  let mx := rrs.filter (·.rrtype = .mx)
  let rest := rrs.filter fun rr => ¬(rr.rrtype = .cname ∨ isAddress rr ∨ rr.rrtype = .mx)
  if addresses = [] then
    rrs
  else
    cname ++ rest ++ setTopRecord domains sort addresses v ++ mx

end
end Loadbalance
