import HanzoDNS.Lib.Channel
import HanzoDNS.Kubernetes.Basic
import HanzoDNS.Transfer.Basic

open Dns Strings Etcd Plugin Channel

namespace Kubernetes

-- A way to sort by name, which leaves the order of what has the same name open.
structure Sorting {α : Type} (name : α → Str) where
  sort : List α → List α
  perm : ∀ l, (sort l).Perm l
  sorted : ∀ l, (sort l).Pairwise fun a b => ¬name b < name a

-- The orders that a transfer does not determine.
structure Order where
  services : Sorting Service.name
  serviceImports : Sorting ServiceImport.name

section

variable (dns : Labels)

def emitAddressRecord (s : Etcd.Service) : Option RR :=
  newAddress s (Etcd.domain dns s.key) s.hostType

def batch (rr : Option RR) : List (List RR) :=
  rr.toList.map ([·])

def hostOf (rr : Option RR) : Str :=
  rr.elim [] (·.name)

def portElements (p : Port) : List Str :=
  [toLower ('_' :: p.protocol), toLower ('_' :: p.name)]

namespace Config

variable (k : Config)

-- The address records of a service with cluster IPs, and the SRV records for its ports. Those point to the name of the
-- last address record.
def clusterIPRecords (base clusterIPs : List Str) (ports : List Port) : List (List RR) :=
  let s : Etcd.Service := { ttl := k.ttl, key := keyOf base }
  let addresses := clusterIPs.map fun ip => emitAddressRecord dns { s with host := ip }
  let host := addresses.getLast?.elim [] hostOf
  addresses.flatMap batch ++ ports.flatMap fun p =>
    let s := { s with host := host, port := p.port }
    let named := { s with key := keyOf (base ++ portElements p) }
    [s.newSRV dns (Etcd.domain dns s.key) 100] ::
      if p.name = [] then [] else [[named.newSRV dns (Etcd.domain dns named.key) 100]]

-- The records of a subset of endpoints. A port without a name has no SRV record.
def subsetRecords (base : List Str) (eps : EndpointSubset) : List (List RR) :=
  eps.addresses.flatMap fun addr =>
    let s : Etcd.Service := { host := addr.ip, ttl := k.ttl, key := keyOf base }
    let named := { s with key := keyOf (base ++ [endpointHostname addr k.endpointNameMode]) }
    let host := hostOf (emitAddressRecord dns named)
    batch (emitAddressRecord dns s) ++ batch (emitAddressRecord dns named) ++
      (eps.ports.filter (·.name ≠ [])).map fun p =>
        let s := { s with host := host, port := p.port, key := keyOf (base ++ portElements p) }
        [s.newSRV dns (Etcd.domain dns s.key) (srvWeight eps.addresses.length)]

def endpointRecords (base : List Str) (ep : Endpoints) : List (List RR) :=
  ep.subsets.flatMap (k.subsetRecords dns base)

def serviceRecords (c : Cluster) (zonePath : Str) (s : Service) : List (List RR) :=
  let base := [zonePath, svc, s.namespace.text, s.name]
  match s.type with
  | .externalName =>
    let name : Etcd.Service := { key := keyOf base, host := s.externalName, ttl := k.ttl }
    if name.hostType = .cname then [[name.newCNAME dns (Etcd.domain dns name.key) name.host]] else []
  | _ =>
    if Net.IP.parse s.clusterIP ≠ none then
      k.clusterIPRecords dns base s.clusterIPs s.ports
    else
      (c.epIndex (key s.name s.namespace.text)).flatMap (k.endpointRecords dns base)

def serviceImportRecords (c : Cluster) (zonePath : Str) (s : ServiceImport) : List (List RR) :=
  let base := [zonePath, svc, s.namespace.text, s.name]
  if s.clusterIPs.head?.bind Net.IP.parse ≠ none then
    k.clusterIPRecords dns base s.clusterIPs s.ports
  else
    (c.mcEpIndex (key s.name s.namespace.text)).flatMap fun ep => k.endpointRecords dns base ep.toEndpoints

def transferServices (order : Order) (c : Cluster) (zonePath : Str) : List (List RR) :=
  ((order.services.sort c.services).filter (k.namespaceExposed c ·.namespace.text)).flatMap
    (k.serviceRecords dns c zonePath)

def transferMultiClusterServices (order : Order) (c : Cluster) (zonePath : Str) : List (List RR) :=
  ((order.serviceImports.sort c.serviceImports).filter (k.namespaceExposed c ·.namespace.text)).flatMap
    (k.serviceImportRecords dns c zonePath)

def nsRecord (zone host : Str) : RR where
  name := zone
  ttl := k.ttl
  data := .ns host

end Config
end

namespace Config

variable (lib : Library) (k : Config) (order : Order) (c : Cluster)

-- The SOA of a zone. Its serial depends on the zone that the request is in.
def soaFor (zone : Str) (state : State) : RR :=
  Plugin.soa lib (k.backend lib c fun _ _ _ => none) zone state

def zoneServices (zone : Str) : List (List RR) :=
  let zonePath := Etcd.path lib.toLabels zone coredns
  if k.isMultiClusterZone lib zone then
    k.transferMultiClusterServices lib.toLabels order c zonePath
  else
    k.transferServices lib.toLabels order c zonePath

-- What is sent for the addresses of name servers, one after the other. The hosts are those that already have a record.
def sendAll (zone : Str) (soa : RR) (nsAddrs : List RR) : (hosts : List Str) → List RR → List (Op (List RR))
  | _, [] => []
  | hosts, nsAddr :: rest =>
    let host := nsAddr.name
    let new := if host ∈ hosts then [] else [[k.nsRecord zone host]]
    (new ++ [nsAddrs] ++ k.zoneServices lib order c zone ++ [[soa]]).map .send ++
      .close :: sendAll zone soa nsAddrs (host :: hosts) rest

-- What the goroutine of a transfer does. The request for the SOA has no zone.
def goroutine (zone : Str) (serial : UInt32) : List (Op (List RR)) :=
  let state : State := { question := [], qtype := 0 }
  let soa := k.soaFor lib c zone state
  if serial ≠ 0 ∧ k.serial lib c state = serial then
    [.send [soa], .close]
  else
    let nsAddrs := k.nsAddrs c false false zone
    .send [soa] :: k.sendAll lib order c zone soa nsAddrs [] nsAddrs

def transfer (zone : Str) (serial : UInt32) : Except Transfer.Error (List (Op (List RR))) :=
  if Zones.matches lib.isSubDomain k.zones zone = [] then
    .error .notAuthoritative
  else
    .ok (k.goroutine lib order c zone serial)

end Config
end Kubernetes
