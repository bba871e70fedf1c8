import HanzoDNS.Kubernetes.Basic

open Dns Strings Plugin

namespace Kubernetes

-- What comes of a request: the next plugin gets it, it fails, or there is a response.
inductive Outcome
  | next
  | failed (rcode : Nat) (err : Option Error)
  | written (m : Msg)
deriving DecidableEq

structure Found where
  records : List RR := []
  extra : List RR := []
  truncated : Bool := false

def Error.isNameError : Error → Bool
  | .other _ => false
  | _ => true

section

variable (lib : Library) (b : Backend) (zone : Str) (state : State)

-- An address lookup tells names without records of the type from names that do not exist.
def fakeLookup : Except Error Found := do
  let _ ← Plugin.a lib b zone { State.newWithQuestion lib (state.qname lib) .a with zone := state.zone }
  return {}

def Found.ofTruncated : List RR × Bool → Found
  | (records, truncated) => { records, truncated }

def Found.ofExtra : List RR × List RR → Found
  | (records, extra) => { records, extra }

def lookup (reverse : State → Except Error (List Etcd.Service)) : Except Error Found :=
  if state.qtype = .a then
    (Plugin.a lib b zone state).map .ofTruncated
  else if state.qtype = .aaaa then
    (Plugin.aaaa lib b zone state).map .ofTruncated
  else if state.qtype = .txt then
    (Plugin.txt lib b zone state).map .ofTruncated
  else if state.qtype = .cname then
    (Plugin.cname lib b state).map ({ records := · })
  else if state.qtype = .ptr then
    (Plugin.ptr lib reverse state).map ({ records := · })
  else if state.qtype = .mx then
    (Plugin.mx b state).map .ofExtra
  else if state.qtype = .srv then
    (Plugin.srv lib b zone state).map .ofExtra
  else if state.qtype = .soa then
    .ok { records := if state.qname lib = zone then [Plugin.soa lib b zone state] else [] }
  else if state.qtype = .ns ∧ state.name lib = zone then
    (Plugin.ns lib b zone state).map .ofExtra
  else
    fakeLookup lib b zone state

end

namespace Config

variable (lib : Library) (k : Config) (c : Cluster)

def respond (b : Backend) (zone : Str) (state : State) (r : Msg) : Except Error Found → Outcome
  | .error err =>
    if Error.isNameError err then
      if Zones.matches lib.isSubDomain k.fall (state.name lib) ≠ [] then
        .next
      else
        .written (Plugin.backendError lib b zone r
          (if c.hasSynced then Msg.rcodeNameError else Msg.rcodeServerFailure) state)
    else
      .failed Msg.rcodeServerFailure (some err)
  | .ok found =>
    if found.records = [] then
      .written (Plugin.backendError lib b zone r Msg.rcodeSuccess state)
    else
      let m := lib.setReply r
      .written { m with
        truncated := found.truncated
        authoritative := true
        answer := m.answer ++ found.records
        extra := m.extra ++ found.extra }

-- The zone keeps the letter case of the question.
def stateOf (r : Msg) (zone : Str) : State where
  question := r.question.head?.elim ['.'] (·.name)
  qtype := r.qtype
  zone := (r.qname lib).text.drop ((r.qname lib).text.length - zone.length)

def serveDNS (lookup : State → Str → RRType → Option Msg) (r : Msg) : Outcome :=
  let zone := Zones.matches lib.isSubDomain k.zones (r.qname lib).text
  if zone = [] then
    .next
  else if r.qtype = .axfr ∨ r.qtype = .ixfr then
    .failed Msg.rcodeRefused none
  else
    let state := stateOf lib r zone
    let b := k.backend lib c lookup
    k.respond lib c b state.zone state r (Kubernetes.lookup lib b state.zone state (k.reverse lib c))

end Config
end Kubernetes
