import HanzoDNS.Dnssec.Basic

open Dns Strings

-- The signatures that replies share: those in the cache, and those that are being made.
namespace Dnssec

structure Config (κ : Type) where
  zones : List Str
  keys : List (DNSKEY κ)
  splitkeys : Bool

-- The outcome of signing something. It is determined when signing begins.
structure Flight where
  answer : Option (List Rrsig)
  since : Time

structure Shared where
  cache : UInt64 → Option (List Rrsig)
  inflight : UInt64 → Option Flight
  clock : Time

namespace Shared

def init (clock : Time) : Shared where
  cache _ := none
  inflight _ := none
  clock := clock

end Shared

def isDnskey (rrs : List RR) : Bool :=
  rrs.head?.any (·.rrtype = .dnskey)

section

variable {κ : Type} (dns : Signing κ) (d : Config κ)

-- The keys for some records. If there are separate keys for keys, then these are only used for keys.
def signers (rrs : List RR) : List (DNSKEY κ) :=
  d.keys.filter fun k => !d.splitkeys || if isDnskey rrs then k.isKSK else k.isZSK

def make (task : Task) : Option (List Rrsig) :=
  (signers d task.rrs).mapM fun k =>
    dns.sign k.s (k.newRRSIG task.signerName task.ttl task.incep task.expir) task.rrs

-- The signatures in the cache, unless one of them is close to its end.
def Shared.get (s : Shared) (key : UInt64) : Option (List Rrsig) :=
  (s.cache key).filter fun sigs => sigs.all (dns.validAt · (s.clock + twoDays))

-- What happens to the shared signatures. The calls that sign replies have indices.
inductive Action (ι : Type)
  | answer (i : ι) (e : Prog.Event Answer)
  | store (key : UInt64)
  | finish (key : UInt64)
  | evict (key : UInt64)
  | tick (t : Time)

variable {ι : Type}

-- A task is answered from the cache, or with what is being made, or it is taken up. A task for which nothing
-- was found in the cache is not answered from there, even if there is something by then. Entries of the cache
-- are removed when it is full, and from time to time if they are about to end.
inductive Step : Shared → Action ι → Shared → Prop
  | hit {task sigs} (h : s.get dns (hash dns task.rrs) = some sigs) : Step s (.answer i ⟨task, some sigs⟩) s
  | join {task flight} (h : s.inflight (hash dns task.rrs) = some flight) : Step s (.answer i ⟨task, flight.answer⟩) s
  | lead {task} (h : s.inflight (hash dns task.rrs) = none) : Step s (.answer i ⟨task, make dns d task⟩)
    { s with inflight := Function.update s.inflight (hash dns task.rrs) (some ⟨make dns d task, s.clock⟩) }
  | store {key sigs since} (h : s.inflight key = some ⟨some sigs, since⟩) (hn : sigs ≠ []) :
    Step s (.store key) { s with cache := Function.update s.cache key (some sigs) }
  | finish : Step s (.finish key) { s with inflight := Function.update s.inflight key none }
  | evict : Step s (.evict key) { s with cache := Function.update s.cache key none }
  | tick (h : s.clock ≤ t) : Step s (.tick t) { s with clock := t }

end

def Action.event [DecidableEq ι] (i : ι) : Action ι → Option (Prog.Event Answer)
  | answer j e => if j = i then some e else none
  | _ => none

def events [DecidableEq ι] (i : ι) (as : List (Action ι)) : List (Prog.Event Answer) :=
  as.filterMap (·.event i)

end Dnssec
