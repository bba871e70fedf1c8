import HanzoDNS.Kubernetes.Basic

open Dns Strings Etcd Plugin

-- What the plugin for addresses outside of a cluster asks about it.
namespace Kubernetes

inductive GroupKind
  | endpoint
  | portProtocol
deriving DecidableEq

structure GroupKey where
  base : Str
  kind : GroupKind
deriving DecidableEq

namespace Config

section

variable (k : Config) (c : Cluster)

-- The labels of a name relative to the zone, the last one first. A name with more labels is too long.
def parseExternal («namespace» : Str) : List Str → Option RecordRequest
  | [service] => some { «namespace», service }
  | [service, endpoint] => some { «namespace», service, endpoint := stripUnderscore endpoint }
  | [service, s, t] => some { «namespace», service, protocol := stripUnderscore s, port := stripUnderscore t }
  | _ => none

-- The services for the addresses of a service outside of the cluster. A headless service has those of its endpoints.
def externalFor (headless : Bool) (zonePath : Str) (r : RecordRequest) (s : Service) : List Etcd.Service :=
  let base := [zonePath, s.namespace.text, s.name]
  if headless ∧ s.externalIPs = [] ∧ (s.headless ∨ r.endpoint ≠ []) then
    (c.epIndex (key r.service r.namespace)).filter (·.index = key s.name s.namespace.text) |>.flatMap
      (k.endpointServices base r fun addr => Kubernetes.match r.endpoint (endpointHostname addr k.endpointNameMode))
  else
    s.externalIPs.flatMap fun ip =>
      (s.ports.filter fun p => matchPortAndProtocol r.port p.name r.protocol p.protocol).map fun p =>
        { host := ip, port := p.port, ttl := k.ttl, key := keyOf base }

def findExternal (headless : Bool) (zonePath : Str) (r : RecordRequest) : List Etcd.Service :=
  ((c.svcIndex (key r.service r.namespace)).filter fun s => r.namespace = s.namespace.text ∧ r.service = s.name).flatMap
    (k.externalFor c headless zonePath r)

end

section

variable (lib : Library) (k : Config) (c : Cluster)

def externalForward (state : State) (headless : Bool) : List Etcd.Service × Nat :=
  let base := trimZone lib.toLabels (state.name lib) state.zone
  match (lib.splitDomainName base).reverse with
  | [] => ([], Msg.rcodeServerFailure)
  | «namespace» :: segs =>
    if !k.namespaceExposed c «namespace» then
      ([], Msg.rcodeNameError)
    else if segs = [] then
      ([], Msg.rcodeSuccess)
    else
      match parseExternal «namespace» segs with
      | none => ([], Msg.rcodeNameError)
      | some r =>
        let services := k.findExternal c headless (Etcd.path lib.toLabels state.zone coredns) r
        (if state.qtype = .ptr then [] else services,
          if services = [] then Msg.rcodeNameError else Msg.rcodeSuccess)

-- The services for a question, and a code for the response. The name of a pointer that is not for an address is looked
-- up like others.
def external (state : State) (headless : Bool) : List Etcd.Service × Nat :=
  match if state.qtype = .ptr then extractAddressFromReverse (state.name lib) else [] with
  | [] => k.externalForward lib c state headless
  | ip =>
    match k.serviceRecordForExternalIP c ip with
    | [] => ([], Msg.rcodeNameError)
    | services => (services, Msg.rcodeSuccess)

def externalAddress (state : State) (headless : Bool) : List RR :=
  k.nsAddrs c true headless state.zone

def externalSerial : UInt32 :=
  UInt32.ofInt (c.modified .external)

-- The services of a port of a service with addresses outside of the cluster: one under the name of the service, and one
-- under the name of the port.
def externalPort (base : List Str) (ip : Str) (p : Port) : List Etcd.Service :=
  let s : Etcd.Service := { host := ip, port := p.port, ttl := k.ttl, key := keyOf base }
  [s, { s with key := keyOf (base ++ [toLower ('_' :: p.protocol), toLower ('_' :: p.name)]), targetStrip := 2 }]

-- The services of a port of an endpoint, with the groups they belong to. A port without a name is in no group of its own.
def headlessPort (base : List Str) (addr : EndpointAddress) (p : Port) : List (GroupKey × Etcd.Service) :=
  let s : Etcd.Service := {
    host := addr.ip
    port := p.port
    ttl := k.ttl
    key := keyOf (base ++ [endpointHostname addr k.endpointNameMode])
  }
  let portKey := keyOf (base ++ [toLower ('_' :: p.protocol), toLower ('_' :: p.name)])
  let group := ({ base := keyOf base, kind := .endpoint }, s)
  if p.name = [] then
    [group]
  else
    [group, ({ base := portKey, kind := .portProtocol }, { s with host := Etcd.domain lib.toLabels s.key, key := portKey })]

def isHeadless (headless : Bool) (s : Service) : Bool :=
  headless && s.externalIPs = [] && s.headless

def externalServices (zone : Str) (headless : Bool) : List Etcd.Service :=
  let zonePath := Etcd.path lib.toLabels zone coredns
  (c.services.filter (!isHeadless headless ·)).flatMap fun s =>
    s.externalIPs.flatMap fun ip => s.ports.flatMap (k.externalPort [zonePath, s.namespace.text, s.name] ip)

def headlessServices (zone : Str) (headless : Bool) : List (GroupKey × Etcd.Service) :=
  let zonePath := Etcd.path lib.toLabels zone coredns
  (c.services.filter (isHeadless headless ·)).flatMap fun s =>
    (c.epIndex (key s.name s.namespace.text)).flatMap fun ep =>
      ep.subsets.flatMap fun eps =>
        eps.addresses.flatMap fun addr =>
          eps.ports.flatMap (k.headlessPort lib [zonePath, s.namespace.text, s.name] addr)

end
end Config
end Kubernetes
