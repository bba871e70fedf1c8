import HanzoDNS.Lib.Strconv
import HanzoDNS.Dnsserver.Server

open Dns Strings Strconv

namespace Plugin

inductive KeyError
  | noPort (s : Str)
  | tooLong (length : Nat)
  | noDomainName (s : Str)
  | invalidCIDR (s : Str)
deriving DecidableEq

def cutLastColon (s : Str) : Option (Str × Str) :=
  match s.reverse.span (· ≠ ':') with
  | (t, _ :: rest) => some (rest.reverse, t.reverse)
  | (_, []) => none

variable (dns : Labels)
-- The reverse zones of the networks into which one in CIDR notation is split. There is at least one.
variable (reverse : Str → Option (Str × List Str))

def splitHost (s port : Str) : Except KeyError (List Str × Str) :=
  if len s > 255 then
    .error (.tooLong (len s))
  else if !dns.isDomainName s then
    .error (.noDomainName s)
  else
    match reverse s with
    | none => .ok ([s], port)
    | some (h, hs) =>
      if s.head? = some ':' ∨ s.head? = some '0' ∧ ':' ∈ s then
        .error (.invalidCIDR s)
      else
        .ok (h :: hs, port)

def splitHostPort (s : Str) : Except KeyError (List Str × Str) :=
  match cutLastColon s with
  | none => if s = [] then .error (.noPort s) else splitHost dns reverse s []
  | some (host, p) =>
    if p = [] then
      .error (.noPort s)
    else
      match atoi p with
      | some n => splitHost dns reverse host (itoa n)
      | none => splitHost dns reverse s []

end Plugin

namespace Dnsserver

def transports : List Str :=
  ["tls", "dns", "quic", "grpc", "https3", "https", "unix"].map String.toList

def parseTransport (s : Str) : Str × Str :=
  match transports.find? fun t => (t ++ "://".toList).isPrefixOf s with
  | some t => (t, s.drop (t.length + 3))
  | none => ("dns", s)

def defaultPort (port trans : Str) : Str :=
  if trans = "dns".toList then
    port
  else if trans = "tls".toList ∨ trans = "quic".toList then
    "853"
  else if trans = "grpc".toList ∨ trans = "https".toList ∨ trans = "https3".toList then
    "443"
  else
    []

@[ext]
structure ZoneAddr where
  zone : Str
  port : Str
  transport : Str
  address : Str := []
deriving DecidableEq

def ZoneAddr.unbound (z : ZoneAddr) : ZoneAddr :=
  { z with address := [] }

section Inspect

variable (dns : Labels) (reverse : Str → Option (Str × List Str)) (port : Str)

-- The hosts of a key are checked again as fully qualified names.
def inspectKey (k : Str) : Except Plugin.KeyError (List ZoneAddr) := do
  let transport := (parseTransport k).1
  let (hosts, p) ← Plugin.splitHostPort dns reverse (parseTransport k).2
  let _ ← hosts.mapM fun h => Plugin.splitHostPort dns reverse (dns.fqdn h)
  let p := if p = [] then defaultPort port transport else p
  return hosts.map fun h => { zone := dns.fqdn h, port := p, transport }

def inspectServerBlocks (blocks : List (List Str)) : Except Plugin.KeyError (List ZoneAddr) := do
  return (← blocks.flatten.mapM (inspectKey dns reverse port)).flatten

end Inspect

-- The zones and addresses that are served so far, and those without the address.
structure ZoneOverlap where
  registeredAddr : ZoneAddr → Bool := fun _ => false
  unboundOverlap : ZoneAddr → Option ZoneAddr := fun _ => none

inductive Conflict
  | «exists» (z : ZoneAddr)
  | overlap (z other : ZoneAddr)
deriving DecidableEq

namespace ZoneOverlap

def check (zo : ZoneOverlap) (z : ZoneAddr) : Option Conflict :=
  if zo.registeredAddr z then
    some (.exists z)
  else
    match zo.unboundOverlap z.unbound with
    | some already =>
      if z.address = [] then
        some (.overlap z already)
      else if zo.registeredAddr z.unbound then
        some (.overlap z z.unbound)
      else
        none
    | none => none

def register (zo : ZoneOverlap) (z : ZoneAddr) : ZoneOverlap where
  registeredAddr := Function.update zo.registeredAddr z true
  unboundOverlap := Function.update zo.unboundOverlap z.unbound (some z)

end ZoneOverlap

structure Listener where
  addr : ZoneAddr
  filtered : Bool

def listeners (configs : List (Config μ)) : List Listener :=
  configs.flatMap fun c => c.listenHosts.map fun h =>
    { addr := { zone := c.zone, port := c.port, transport := c.transport, address := h }
      filtered := !c.filterFuncs.isEmpty }

-- One with filters may share a zone and an address with one without, so that it is not registered.
def validate (zo : ZoneOverlap) : List Listener → Option Conflict
  | [] => none
  | l :: ls =>
    match zo.check l.addr with
    | some (.exists z) => if l.filtered then validate zo ls else some (.exists z)
    | some conflict => some conflict
    | none => validate (if l.filtered then zo else zo.register l.addr) ls

def validateZonesAndListeningAddresses (configs : List (Config μ)) : Option Conflict :=
  validate {} (listeners configs)

end Dnsserver
