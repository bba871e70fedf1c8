import HanzoDNS.Lib.Interaction
import HanzoDNS.Lib.Serial
import HanzoDNS.Lib.Strconv
import HanzoDNS.Cache.Basic

open Dns Strings Strconv Cache

-- The plugin that signs replies when they are written.
namespace Dnssec

structure Rrsig where
  name : Str := []
  ttl : UInt32
  typeCovered : RRType := 0
  algorithm : UInt8
  labels : UInt8 := 0
  origTtl : UInt32
  expiration : UInt32
  inception : UInt32
  keyTag : UInt16
  signerName : Str
  signature : Str := []
deriving DecidableEq

def unix (t : Time) : Int :=
  t.fdiv second

-- The functions of the DNS library that deal with signatures, and what its documentation says about them.
structure Signing (κ : Type) extends Library where
  string : RR → Str
  -- The fields of a signature in presentation format that are not looked into once it is part of a message.
  rest : Rrsig → Str
  -- Signs records. What has been filled in is kept, and the rest is copied from the records.
  sign : κ → Rrsig → List RR → Option Rrsig
  sign_some : sign k draft rrs = some sig → sig.ttl = draft.ttl ∧ sig.signerName = draft.signerName ∧
    sig.inception = draft.inception ∧ sig.expiration = draft.expiration
  -- Whether a signature is valid at a point in time, in serial arithmetic.
  validAt : Rrsig → Time → Bool
  validAt_iff : validAt sig t ↔
    (sig.inception = UInt32.ofInt (unix t) ∨ Serial.Older sig.inception (UInt32.ofInt (unix t))) ∧
    (sig.expiration = UInt32.ofInt (unix t) ∨ Serial.Older (UInt32.ofInt (unix t)) sig.expiration)

-- A library in which a private key is the text of its signatures.
def Signing.reference : Signing Str where
  toLibrary := .reference
  string rr := rr.name ++ itoa rr.rrtype.toNat ++ [' '] ++ itoa rr.ttl.toNat
  rest sig := sig.signerName ++ [' '] ++ sig.signature
  sign s draft rrs := rrs.head?.map fun rr => { draft with name := rr.name, typeCovered := rr.rrtype, signature := s }
  sign_some h := by
    obtain ⟨rr, -, rfl⟩ := Option.map_eq_some_iff.mp h
    exact ⟨rfl, rfl, rfl, rfl⟩
  validAt sig t := decide <|
    (sig.inception = UInt32.ofInt (unix t) ∨ Serial.Older sig.inception (UInt32.ofInt (unix t))) ∧
    (sig.expiration = UInt32.ofInt (unix t) ∨ Serial.Older (UInt32.ofInt (unix t)) sig.expiration)
  validAt_iff := decide_eq_true_iff

structure DNSKEY (κ : Type) where
  flags : UInt16
  algorithm : UInt8
  tag : UInt16
  s : κ

namespace DNSKEY

variable {κ : Type} (k : DNSKEY κ)

def isZSK : Bool :=
  k.flags &&& 256 = 256 ∧ k.flags &&& 1 = 0

def isKSK : Bool :=
  k.flags &&& 256 = 256 ∧ k.flags &&& 1 = 1

def origTTL : UInt32 := 3600

def newRRSIG (signerName : Str) (ttl incep expir : UInt32) : Rrsig where
  ttl := ttl
  algorithm := k.algorithm
  origTtl := origTTL
  expiration := expir
  inception := incep
  keyTag := k.tag
  signerName := signerName

end DNSKEY

def hour : Duration := 3600 * second

def eightDays : Duration := 8 * 24 * hour

def twoDays : Duration := 2 * 24 * hour

def incepExpir (now : Time) : UInt32 × UInt32 :=
  (UInt32.ofInt (unix (now - 3 * hour)), UInt32.ofInt (unix (now + eightDays)))

-- The records of a section by name and type, except for those that are not signed.
def rrSets (rrs : List RR) : List (List RR) :=
  let signed := rrs.filter fun r => ¬(r.rrtype = .rrsig ∨ r.rrtype = .opt)
  let sets := (signed.map fun r => (r.name, r.rrtype)).dedup
  sets.map fun set => signed.filter fun r => (r.name, r.rrtype) = set

structure Task where
  rrs : List RR
  signerName : Str
  ttl : UInt32
  incep : UInt32
  expir : UInt32
deriving DecidableEq

-- The signatures for a task unless there is an error.
abbrev Answer (_ : Task) : Type :=
  Option (List Rrsig)

theorem perm_id (sets : List (List RR)) : (id sets).Perm sets :=
  .rfl

-- A reply that is to be signed for a zone. Maps are ranged over in any order.
structure Call where
  req : Msg
  zone : Str
  now : Time
  clock : Time
  order : List (List RR) → List (List RR) := id
  order_perm : ∀ sets, (order sets).Perm sets := by exact perm_id

def delegationBitmap : List RRType :=
  [.a, .ns, .hinfo, .txt, .aaaa, .loc, .srv, .cert, .sshfp, .rrsig, .nsec, .tlsa, .hip, .openpgpkey, .spf]

def zoneBitmap : List RRType :=
  [.a, .hinfo, .txt, .aaaa, .loc, .srv, .cert, .sshfp, .rrsig, .nsec, .tlsa, .hip, .openpgpkey, .spf]

def apexBitmap : List RRType :=
  [.a, .ns, .soa, .hinfo, .mx, .txt, .aaaa, .loc, .srv, .cert, .sshfp, .rrsig, .nsec, .dnskey, .tlsa, .hip,
    .openpgpkey, .spf]

-- A bitmap without a type, if it is for the denial of that type.
def filterBitmap (full : List RRType) (t : RRType) (bitmap : List RRType) (mt : ResponseType) : List RRType :=
  if (mt ≠ .noData ∧ mt ≠ .nameError) ∨ t = .nsec then
    full
  else if t ∈ bitmap then
    bitmap.erase t
  else
    full

def filter14 := filterBitmap zoneBitmap

def filter18 := filterBitmap apexBitmap

section

variable {κ : Type} (dns : Signing κ)

def Rrsig.rr (sig : Rrsig) : RR where
  name := sig.name
  ttl := sig.ttl
  data := .rrsig sig.typeCovered (dns.rest sig)

def hash (rrs : List RR) : UInt64 :=
  Fnv.sum (rrs.flatMap fun rr => bytes (dns.string rr))

namespace Call

variable (call : Call)

def task (rrs : List RR) (ttl : UInt32) : Task :=
  let (incep, expir) := incepExpir call.now
  ⟨rrs, call.zone, ttl, incep, expir⟩

-- An NSEC record that denies what was asked for, or none if there is a panic.
def nsec (mt : ResponseType) (ttl : UInt32) : Option RR :=
  let qname := (call.req.qname dns.toLibrary).text
  let nextDomain := if qname = ['.'] then "\\000.".toList else "\\000.".toList ++ qname
  if call.req.name dns.toLibrary = call.zone then
    some ⟨qname, ttl, .nsec nextDomain (filter18 call.req.qtype apexBitmap mt)⟩
  else if mt = .delegation ∨ call.req.qtype = .ds then
    if mt = .delegation then
      match dns.splitDomainName qname with
      | [] => none
      | label :: labels =>
        let nextDomain := List.intercalate ['.'] ((label ++ "\\000".toList) :: labels) ++ ['.']
        some ⟨qname, ttl, .nsec nextDomain delegationBitmap⟩
    else
      some ⟨qname, ttl, .nsec nextDomain delegationBitmap⟩
  else
    some ⟨qname, ttl, .nsec nextDomain (filter14 call.req.qtype zoneBitmap mt)⟩

-- Adds the signatures for a task, and some more records, to a section unless there is an error.
def attach (task : Task) (rrs more : List RR) : Prog Answer (List RR) := do
  let answer ← Prog.query task
  return answer.elim rrs fun sigs => rrs ++ sigs.map (·.rr dns) ++ more

-- A denial with its signed authority section, which always looks as if the name existed. If the NSEC record is what
-- was asked for, then it is the answer.
def denial (ns : List RR) : Msg :=
  if ns.length > 1 then
    if call.req.qtype = .nsec then
      { call.req with rcode := Msg.rcodeSuccess, answer := ns.drop (ns.length - 2), ns := [] }
    else
      { call.req with rcode := Msg.rcodeSuccess, ns }
  else
    { call.req with ns }

def firstTTL (rrs : List RR) : UInt32 :=
  (rrs.head?.map (·.ttl)).getD 0

def signSets : List (List RR) → List RR → Prog Answer (List RR)
  | [], rrs => return rrs
  | set :: sets, rrs => do
    let rrs ← attach dns (call.task set (firstTTL set)) rrs []
    signSets sets rrs

def signDelegation : Prog Answer (Option Msg) :=
  let ttl := firstTTL call.req.ns
  let ds := call.req.ns.filter (·.rrtype = .ds)
  if ds = [] then
    match call.nsec dns .delegation ttl with
    | none => return none
    | some nsec => do
      let ns ← attach dns (call.task [nsec] ttl) call.req.ns [nsec]
      return some { call.req with ns }
  else do
    let ns ← attach dns (call.task ds ttl) call.req.ns []
    return some { call.req with ns }

def signDenial (mt : ResponseType) : Prog Answer (Option Msg) := do
  let ttl := firstTTL call.req.ns
  let ns ← attach dns (call.task call.req.ns ttl) call.req.ns []
  match call.nsec dns mt ttl with
  | none => return none
  | some nsec =>
    let ns ← attach dns (call.task [nsec] ttl) ns [nsec]
    return some (call.denial ns)

-- A reply with its signatures, or none if there is a panic.
def sign : Prog Answer (Option Msg) :=
  let mt := typify dns.toLibrary call.req call.clock
  if mt = .delegation then
    if call.req.ns = [] then return some call.req else call.signDelegation dns
  else if mt = .nameError ∨ mt = .noData then
    if call.req.ns.length ≠ 1 ∨ ¬call.req.ns.all (·.rrtype = .soa) then
      return some call.req
    else
      call.signDenial dns mt
  else do
    let answer ← call.signSets dns (call.order (rrSets call.req.answer)) call.req.answer
    let ns ← call.signSets dns (call.order (rrSets call.req.ns)) call.req.ns
    let extra ← call.signSets dns (call.order (rrSets call.req.extra)) call.req.extra
    return some { call.req with answer, ns, extra }

end Call
end
end Dnssec
