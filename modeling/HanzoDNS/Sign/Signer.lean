import HanzoDNS.Dnssec.Basic
import HanzoDNS.File.AuthWalk
import HanzoDNS.File.Transfer
import HanzoDNS.Sign.Resign

open Dns File

namespace Sign

def durationSignatureExpireDays : Duration := 32 * 24 * hour

def durationSignatureInceptionHours : Duration := -3 * hour

structure ZoneFile where
  records : List RR
  err : Option Str

inductive Failure
  | file (err : Str)
  | signature
  | panic
deriving DecidableEq

structure DNSKEY where
  name : Str
  algorithm : UInt8
  rdata : Str
deriving DecidableEq

structure Pair (κ : Type) where
  publicKey : DNSKEY
  keyTag : UInt16
  privateKey : κ

-- The functions of the DNS library that deal with keys and signatures, and what its documentation says about them.
structure Crypto (κ : Type) where
  -- The data of the DS record of a key for a digest type.
  toDS : UInt8 → DNSKEY → Str
  -- The fields of a signature that are not looked into.
  rest : Dnssec.Rrsig → Str
  -- Signs records. What is not filled in is copied from the records.
  sign : κ → Dnssec.Rrsig → List RR → Option Dnssec.Rrsig
  sign_copies : sign k draft (rr :: rrs) = some sig → sig.name = rr.name ∧ sig.typeCovered = rr.rrtype

def sha1 : UInt8 := 1

def sha256 : UInt8 := 2

theorem untyped_dnskey : RRType.dnskey ∉ RRType.typed := by
  decide

theorem untyped_cds : RRType.cds ∉ RRType.typed := by
  decide

theorem untyped_cdnskey : RRType.cdnskey ∉ RRType.typed := by
  decide

def NSEC (name next : Str) (ttl : UInt32) (bitmap : List RRType) : RR where
  name := name
  ttl := ttl
  data := .nsec next (bitmap.insertionSort (· ≤ ·))

def lifetime (now : Time) (jitterInception jitterExpiration : Duration) : UInt32 × UInt32 :=
  (UInt32.ofInt (Dnssec.unix (now + durationSignatureInceptionHours + jitterInception)),
    UInt32.ofInt (Dnssec.unix (now + durationSignatureExpireDays + jitterExpiration)))

-- The records that are not taken over from a zone file.
def skipped (rr : RR) : Bool :=
  rr.rrtype ∈ [.dnskey, .rrsig, .cdnskey, .cds]

namespace Pair

variable {κ : Type} (crypto : Crypto κ) (p : Pair κ)

def records (ttl : UInt32) : List RR := [
  ⟨p.publicKey.name, ttl, .other .dnskey p.publicKey.rdata untyped_dnskey⟩,
  ⟨p.publicKey.name, ttl, .other .cds (crypto.toDS sha1 p.publicKey) untyped_cds⟩,
  ⟨p.publicKey.name, ttl, .other .cds (crypto.toDS sha256 p.publicKey) untyped_cds⟩,
  ⟨p.publicKey.name, ttl, .other .cdnskey p.publicKey.rdata untyped_cdnskey⟩
]

def signRRs (rrs : List RR) (signerName : Str) (ttl incep expir : UInt32) : Except Failure RR :=
  let rrsig : Dnssec.Rrsig := {
    ttl
    algorithm := p.publicKey.algorithm
    signerName
    keyTag := p.keyTag
    origTtl := ttl
    inception := incep
    expiration := expir }
  match crypto.sign p.privateKey rrsig rrs with
  | none => .error .signature
  | some sig => .ok ⟨sig.name, sig.ttl, .rrsig sig.typeCovered (crypto.rest sig)⟩

end Pair

structure Signer (κ : Type) where
  keys : List (Pair κ)
  origin : Str
  dbfile : Str
  jitterIncep : Duration
  jitterExpir : Duration

section

variable (dns : Labels)

def parse (f : ZoneFile) (origin fileName : Str) : Except Failure Zone :=
  match (Zone.new dns origin).load dns (f.records.filter (!skipped ·)) with
  | none => .error .panic
  | some (.error err) => .error (.file err)
  | some (.ok z) =>
    match f.err with
    | some err => .error (.file err)
    | none =>
      if f.records.any (·.rrtype = .soa) then
        .ok z
      else
        .error (.file (("file \"" : Str) ++ fileName ++ ("\" has no SOA record" : Str)))

def insert (z : Zone) (rr : RR) : Except Failure Zone :=
  match z.insert dns rr with
  | none => .error .panic
  | some (.error _) => .ok z
  | some (.ok z) => .ok z

def insertElem (z : Zone) (name : Str) (rr : RR) : Zone :=
  { z with tree := { z.tree with root := z.tree.root.update (·.less (order dns) name) (·.insert rr) } }

def names (z : Zone) : List Str :=
  (z.tree.authWalk (m := StateM (List Str)) dns fun e auth =>
    if auth then modify (· ++ [e.name]) else pure ⟨⟩).run [] |>.2

namespace Signer

variable {κ : Type} (crypto : Crypto κ) (range : Elem.Range) (s : Signer κ)

def insertKeys (z : Zone) (ttl : UInt32) : Except Failure Zone :=
  (s.keys.flatMap (·.records crypto ttl)).foldlM (insert dns) z

def signApex (z : Zone) (ttl incep expir : UInt32) : Except Failure Zone :=
  s.keys.foldlM (fun z pair => do
    let rrsig ← pair.signRRs crypto z.apex.soa.toList s.origin ttl incep expir
    let z ← insert dns z rrsig
    if z.apex.ns = [] then
      return z
    let rrsig ← pair.signRRs crypto z.apex.ns s.origin ttl incep expir
    insert dns z rrsig) z

def signType (e zrrs : Elem) (incep expir : UInt32) (z : Zone) (t : RRType) : Except Failure Zone :=
  if t = .rrsig ∨ t = .ns then
    .ok z
  else
    s.keys.foldlM (fun z pair => do
      let rrs := zrrs.type t
      let rrsig ← pair.signRRs crypto rrs s.origin ((rrs.head?.map (·.ttl)).getD 0) incep expir
      return insertElem dns z e.name rrsig) z

-- The types that the NSEC record of an element lists. The SOA and the NS records of the apex are not in the tree.
def bitmap (e : Elem) : List RRType :=
  range.types e ++ if e.name = s.origin then [.ns, .soa, .rrsig, .nsec] else [.rrsig, .nsec]

-- Adds the NSEC record of an element and signs what the element then has. The number `i` is that of the next name.
def visit (names : List Str) (mttl incep expir : UInt32) (e : Elem) (auth : Bool) :
    Zone × Nat → Except Failure (Zone × Nat)
  | (z, i) =>
    if auth then
      match names[(names.length + i) % names.length]? with
      | none => .error .panic
      | some next => do
        let z ← insert dns z (NSEC e.name next mttl (s.bitmap range e))
        let zrrs := (z.search dns e.name).getD e
        let z ← (range.types zrrs).foldlM (s.signType dns crypto e zrrs incep expir) z
        return (z, i + 1)
    else
      .ok (z, i)

-- The walk follows the links of the tree. Records are added to elements that it has, which leaves the links alone,
-- so what it comes to are the elements that there were when it set out.
def signTree (z : Zone) (names : List Str) (mttl incep expir : UInt32) : Except Failure Zone := do
  let (_, z, _) ← (z.tree.authWalk (m := StateT (Zone × Nat) (Except Failure)) dns fun e auth st =>
    (⟨⟩, ·) <$> s.visit dns crypto range names mttl incep expir e auth st).run (z, 1)
  return z

-- Signs what there is in a zone file, unless it cannot be opened.
def sign (now : Time) (rd : Except Str ZoneFile) : Except Failure Zone :=
  match rd with
  | .error err => .error (.file err)
  | .ok f => do
    let z ← parse dns f s.origin s.dbfile
    match z.apex.soa with
    | some ⟨name, ttl, .soa soa⟩ =>
      let mttl := soa.minttl
      let (inception, expiration) := lifetime now s.jitterIncep s.jitterExpir
      let soa := { soa with serial := UInt32.ofInt (Dnssec.unix now) }
      let z := { z with apex := { z.apex with soa := some ⟨name, ttl, .soa soa⟩ } }
      let z ← s.insertKeys dns crypto z ttl
      let names := names dns z
      let z ← s.signApex dns crypto z ttl inception expiration
      s.signTree dns crypto range z names mttl inception expiration
    | _ => .error .panic

end Signer
end
end Sign
