import HanzoDNS.Lib.Fnv
import HanzoDNS.Plugin.Normalize
import HanzoDNS.Request

open Dns Strings

-- The plugin that caches replies.
namespace Cache

inductive ResponseType
  | noError
  | nameError
  | serverError
  | noData
  | delegation
  | metaMsg
  | update
  | otherError
deriving DecidableEq

section Typify

variable (lib : Library)

def typifyExpiredRRSIG (rrs : List RR) (t : Time) : Bool :=
  rrs.any fun r => r.rrtype = .rrsig ∧ ¬lib.validityPeriod r t

def typifyExpired (m : Msg) (t : Time) : Bool :=
  typifyExpiredRRSIG lib m.answer t || typifyExpiredRRSIG lib m.ns t || typifyExpiredRRSIG lib m.extra t

def typify (m : Msg) (t : Time) : ResponseType :=
  let soa := m.ns.any (·.rrtype = .soa)
  let ns := m.ns.any (·.rrtype = .ns)
  if m.opcode = Msg.opcodeUpdate then
    .update
  else if m.opcode = Msg.opcodeNotify then
    .metaMsg
  else if m.question ≠ [] ∧ (m.qtype = .axfr ∨ m.qtype = .ixfr) then
    .metaMsg
  else if lib.isDo m ∧ typifyExpired lib m t then
    .otherError
  else if m.answer ≠ [] ∧ m.rcode = Msg.rcodeSuccess then
    .noError
  else if soa ∧ m.rcode = Msg.rcodeSuccess then
    .noData
  else if soa ∧ m.rcode = Msg.rcodeNameError then
    .nameError
  else if m.rcode = Msg.rcodeServerFailure ∨ m.rcode = Msg.rcodeNotImplemented then
    .serverError
  else if ns ∧ m.rcode = Msg.rcodeSuccess then
    .delegation
  else if m.rcode = Msg.rcodeSuccess then
    .noError
  else
    .otherError

end Typify

def minimalDefaultTTL : Duration := 5 * second
def maximumDefaultTTL : Duration := 3600 * second

def lowerTTL (minTTL : Duration) (r : RR) : Duration :=
  if r.ttl.toNat < seconds minTTL then r.ttl.toNat * second else minTTL

-- The lowest TTL in a message. The field has another meaning in OPT records.
def minimalTTL (m : Msg) (mt : ResponseType) : Duration :=
  if mt ≠ .noError ∧ mt ≠ .nameError ∧ mt ≠ .noData then
    minimalDefaultTTL
  else if m.answer = [] ∧ m.ns = [] ∧ (m.extra = [] ∨ m.extra.length = 1 ∧ m.extra.all (·.rrtype = .opt)) then
    minimalDefaultTTL
  else
    (m.answer ++ m.ns ++ m.extra.filter (·.rrtype ≠ .opt)).foldl lowerTTL maximumDefaultTTL

def computeTTL (msgTTL minTTL maxTTL : Duration) : Duration :=
  min (max msgTTL minTTL) maxTTL

def flag (b : Bool) : UInt8 :=
  if b then '1'.toUInt8 else '0'.toUInt8

-- The key of replies for a name, a type and two flags of a request. The source calls the first one DO.
def hash (qname : Str) (qtype : RRType) (dnssec cd : Bool) : UInt64 :=
  Fnv.sum ([flag dnssec, flag cd] ++ [(qtype >>> 8).toUInt8, qtype.toUInt8] ++ bytes qname)

-- The key under which a reply is stored, unless it is not to be stored. It is none if there is a panic because
-- the reply has no question.
def key (qname : Str) (m : Msg) (t : ResponseType) (dnssec cd : Bool) : Option (Option UInt64) :=
  if m.truncated then
    some none
  else if t = .otherError ∨ t = .metaMsg ∨ t = .update then
    some none
  else
    m.question.head?.map fun q => some (hash qname q.qtype dnssec cd)

def filterRRSlice (rrs : List RR) (ttl : UInt32) : List RR :=
  (rrs.filter (·.rrtype ≠ .opt)).map ({ · with ttl })

structure Config where
  zones : List Str
  pttl : Duration := maximumDefaultTTL
  minpttl : Duration := minimalDefaultTTL
  nttl : Duration := maximumDefaultTTL / 2
  minnttl : Duration := minimalDefaultTTL
  failttl : Duration := minimalDefaultTTL
  prefetch : Int := 0
  duration : Duration := 60 * second
  percentage : Int := 10
  staleUpTo : Duration := 0
  verifyStale : Bool := false
  verifyStaleTimeout : Duration := 0
  pexcept : List Str := []
  nexcept : List Str := []
  keepttl : Bool := false

structure Item where
  -- Items are pointers, which this number stands for.
  id : Nat
  name : Str
  qtype : RRType
  rcode : Nat
  authenticatedData : Bool
  recursionAvailable : Bool
  answer : List RR
  ns : List RR
  extra : List RR
  origTTL : UInt32
  stored : Time
  -- The request to which the item is a reply, and the type of the reply. The source has no such fields.
  request : Msg
  type : ResponseType
deriving DecidableEq

namespace Item

def ttl (i : Item) (now : Time) : Int :=
  i.origTTL.toNat - seconds (now - i.stored)

end Item

section

variable (lib : Library)

def Item.matches (i : Item) (state : Msg) : Bool :=
  state.qtype = i.qtype ∧ equalFold (state.qname lib) i.name

def Item.toMsg (i : Item) (m : Msg) (now : Time) (dnssec ad : Bool) : Msg :=
  let ttl := UInt32.ofInt (i.ttl now)
  { lib.setReply m with
    authoritative := true
    authenticatedData := if !dnssec && !ad then false else i.authenticatedData
    recursionAvailable := i.recursionAvailable
    rcode := i.rcode
    answer := filterRRSlice i.answer ttl
    ns := filterRRSlice i.ns ttl
    extra := filterRRSlice i.extra ttl }

end

-- The item for a reply without its OPT records, which are only for the next hop.
def newItem (id : Nat) (request m : Msg) (mt : ResponseType) (now : Time) (d : Duration) : Item where
  id := id
  name := (m.question.head?.map (·.name)).getD []
  qtype := m.qtype
  rcode := m.rcode
  authenticatedData := m.authenticatedData
  recursionAvailable := m.recursionAvailable
  answer := m.answer
  ns := m.ns
  extra := m.extra.filter (·.rrtype ≠ .opt)
  origTTL := UInt32.ofInt (seconds d)
  stored := now
  request := request
  type := mt

structure Freq where
  last : Option Time := none
  hits : Int := 0
deriving DecidableEq

def Freq.update (f : Freq) (d : Duration) (now : Time) : Freq :=
  match f.last with
  | none => { last := some now, hits := 1 }
  | some last => { last := some now, hits := if last < now - d then 1 else f.hits + 1 }

end Cache
