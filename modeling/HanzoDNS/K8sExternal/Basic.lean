import HanzoDNS.Kubernetes.External
import HanzoDNS.Kubernetes.Handler

open Dns Strings Etcd Plugin Kubernetes

-- The plugin that answers for addresses outside of a cluster.
namespace K8sExternal

structure External where
  zones : List Str
  fall : List Str := []
  hostmaster : Str := "hostmaster"
  apex : Str := "dns"
  ttl : UInt32 := 5
  headless : Bool := false

-- What the plugin gets from the server and from the plugin of the cluster.
structure Env where
  lookup : State → (name : Str) → (qtype : RRType) → Option Msg
  k : Config
  cluster : Cluster

namespace External

variable (lib : Library) (e : External)

section Records

variable (lookup : State → (name : Str) → (qtype : RRType) → Option Msg)

-- What a service adds to the records of a type. Addresses of the other type are left out.
def addAddress (qtype : RRType) (state : State) (acc : Answers) (s : Etcd.Service) : Answers :=
  match s.hostType with
  | .cname =>
    let records := acc.records ++ [s.newCNAME lib.toLabels (state.qname lib) s.host]
    match lookup state (lib.fqdn s.host) qtype with
    | none => { acc with records := records }
    | some resp => { acc with records := records ++ resp.answer, truncated := acc.truncated || resp.truncated }
  | what =>
    match (Plugin.newAddress { s with ttl := e.ttl } (state.qname lib) what).filter (·.rrtype = qtype) with
    | none => acc
    | some rr =>
      if s.host ∈ acc.dup then acc else { acc with records := acc.records ++ [rr], dup := s.host :: acc.dup }

def a (services : List Etcd.Service) (state : State) : Answers :=
  services.foldl (e.addAddress lib lookup .a state) {}

def aaaa (services : List Etcd.Service) (state : State) : Answers :=
  services.foldl (e.addAddress lib lookup .aaaa state) {}

def ptr (services : List Etcd.Service) (state : State) : List RR :=
  (services.eraseDupsBy (·.host = ·.host)).map fun s =>
    { s with ttl := e.ttl }.newPTR lib.toLabels (state.qname lib) (File.join lib.toLabels [s.host, e.zones.headD []])

def srvTarget (state : State) (weight : UInt16) (acc : Targets) (s : Etcd.Service) : Targets :=
  if s.port = -1 then
    acc
  else
    match s.hostType with
    | .txt => acc
    | .cname =>
      let addr := lib.fqdn s.host
      let target := s.target lib.toLabels
      acc.add (s.newSRV lib.toLabels (state.qname lib) weight) target (UInt16.ofInt s.port) addr
        ((lookup state addr .a).elim [] (·.answer) ++ (lookup state addr .aaaa).elim [] (·.answer))
    | what =>
      let named := { s with host := Etcd.domain lib.toLabels s.key }
      let target := named.target lib.toLabels
      acc.add (named.newSRV lib.toLabels (state.qname lib) weight) target (UInt16.ofInt s.port) s.host
        (Plugin.newAddress { s with ttl := e.ttl } target what).toList

def srv (services : List Etcd.Service) (state : State) : Targets :=
  services.foldl (e.srvTarget lib lookup state (srvWeight services.length)) {}

end Records

section

variable (env : Env)

def soa (zone : Str) : RR where
  name := zone
  ttl := e.ttl
  data := .soa {
    mbox := File.join lib.toLabels [e.hostmaster, e.apex, zone]
    ns := File.join lib.toLabels ["ns1", e.apex, zone]
    serial := Config.externalSerial env.cluster
    refresh := 7200
    retry := 1800
    expire := 86400
    minttl := e.ttl
  }

def ns (zone : Str) : RR where
  name := zone
  ttl := e.ttl
  data := .ns (File.join lib.toLabels ["ns1", e.apex, zone])

def addresses (state : State) (name : Str) : List RR :=
  (env.k.externalAddress env.cluster state e.headless).map fun rr => { rr with name, ttl := e.ttl }

def serveApex (state : State) (r : Msg) : Msg :=
  let m := { lib.setReply r with authoritative := true }
  if state.qtype = .soa then
    { m with answer := [e.soa lib env state.zone] }
  else if state.qtype = .ns then
    let name := File.join lib.toLabels ["ns1", e.apex, state.qname lib]
    { m with answer := [e.ns lib state.zone], extra := m.extra ++ e.addresses env state name }
  else
    { m with ns := [e.soa lib env state.zone] }

def serveSubApex (state : State) (r : Msg) : Msg :=
  let m := { lib.setReply r with authoritative := true, ns := [e.soa lib env state.zone] }
  let base := trimZone lib.toLabels (state.name lib) state.zone
  let labels := lib.countLabel base
  if labels = 1 then
    m
  else if labels = 2 ∧ base.take (lib.nextLabel base 0).1 = "ns1.".toList then
    let answer := (e.addresses env state (state.qname lib)).filter fun rr =>
      rr.rrtype = state.qtype ∧ (state.qtype = .a ∨ state.qtype = .aaaa)
    if answer = [] then m else { m with answer := m.answer ++ answer, ns := (lib.setReply r).ns }
  else
    { m with rcode := Msg.rcodeNameError }

def respond (state : State) (r : Msg) (svc : List Etcd.Service) : Msg :=
  let m := { lib.setReply r with authoritative := true }
  let found : Msg :=
    if state.qtype = .a then
      let as := e.a lib env.lookup svc state
      { m with answer := as.records, truncated := as.truncated }
    else if state.qtype = .aaaa then
      let as := e.aaaa lib env.lookup svc state
      { m with answer := as.records, truncated := as.truncated }
    else if state.qtype = .srv then
      let ts := e.srv lib env.lookup svc state
      { m with answer := ts.records, extra := ts.extra }
    else if state.qtype = .ptr then
      { m with answer := e.ptr lib svc state }
    else
      { m with ns := [e.soa lib env state.zone] }
  if found.answer = [] then { found with ns := [e.soa lib env state.zone] } else found

inductive Place
  | apex
  | subApex
  | service
deriving DecidableEq

-- The zones are tried in their order.
def place (name : Str) : Place :=
  e.zones.findSome? (fun z =>
    if name = z then some .apex
    else if lib.isSubDomain (e.apex ++ '.' :: z) name then some .subApex
    else none) |>.getD .service

def stateOf (r : Msg) (zone : Str) : State where
  question := r.question.head?.elim ['.'] (·.name)
  qtype := r.qtype
  zone := zone

def answer (state : State) (r : Msg) : List Etcd.Service × Nat → Outcome
  | ([], rcode) =>
    if Zones.matches lib.isSubDomain e.fall (state.name lib) ≠ [] ∧ rcode = Msg.rcodeNameError then
      .next
    else
      .written { lib.setReply r with authoritative := true, rcode, ns := [e.soa lib env state.zone] }
  | (svc, _) => .written (e.respond lib env state r svc)

def serveDNS (r : Msg) : Outcome :=
  let zone := Zones.matches lib.isSubDomain e.zones (r.name lib)
  if zone = [] then
    .next
  else
    let state := stateOf r zone
    match e.place lib (r.name lib) with
    | .apex => .written (e.serveApex lib env state r)
    | .subApex => .written (e.serveSubApex lib env state r)
    | .service => e.answer lib env state r (env.k.external lib env.cluster state e.headless)

end
end External
end K8sExternal
