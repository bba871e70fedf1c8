import HanzoDNS.Dns.Util
import HanzoDNS.Kubernetes.Objects
import HanzoDNS.Plugin.Backend

open Dns Strings Etcd Plugin

-- The plugin that answers for the services of a cluster.
namespace Kubernetes

inductive PodMode
  | disabled
  | verified
  | insecure
deriving DecidableEq

structure Config where
  zones : List Str
  -- The first zone that is not a reverse zone.
  primaryZoneIndex : Fin zones.length
  namespaces : List Str := []
  -- Whether only namespaces with certain labels are watched.
  namespaceLabels : Bool := false
  podMode : PodMode := .disabled
  endpointNameMode : Bool := false
  fall : List Str := []
  ttl : UInt32 := 5
  ignoreEmptyService : Bool := false
  multiclusterZones : List Str := []
  localIPs : List Net.IP := []

def svc : Str := "svc"

def pod : Str := "pod"

def coredns : Str := ['c']

def defaultNSName : Str := "ns.dns."

def dnsSchemaVersion : Str := "1.1.0"

-- One of the two strings comes from a name in presentation format, so it is ASCII.
def «match» (a b : Str) : Bool :=
  foldsAll a b

def matchPortAndProtocol (aPort bPort aProtocol bProtocol : Str) : Bool :=
  (Kubernetes.match aPort bPort || aPort = []) && (Kubernetes.match aProtocol bProtocol || aProtocol = [])

def stripUnderscore : Str → Str
  | '_' :: s => s
  | s => s

def endpointHostname (addr : EndpointAddress) (endpointNameMode : Bool) : Str :=
  if addr.hostname ≠ [] then
    addr.hostname
  else if endpointNameMode ∧ addr.targetRefName ≠ [] then
    addr.targetRefName
  else if '.' ∈ addr.ip then
    replaceAll addr.ip ['.'] ['-']
  else if ':' ∈ addr.ip then
    let ipv6Hostname := replaceAll addr.ip [':'] ['-']
    if hasSuffix ipv6Hostname ['-'] then ipv6Hostname ++ ['0'] else ipv6Hostname
  else
    []

structure RecordRequest where
  port : Str := []
  protocol : Str := []
  endpoint : Str := []
  cluster : Str := []
  service : Str := []
  «namespace» : Str := []
  podOrSvc : Str := []
deriving DecidableEq

-- The labels of a name relative to the zone, the last one first.
def parseSegments (multicluster : Bool) : List Str → Except Error RecordRequest
  | [] => .ok {}
  | podOrSvc :: segs =>
    if podOrSvc ≠ pod ∧ podOrSvc ≠ svc then
      .error .invalidRequest
    else
      match segs with
      | [] => .ok { podOrSvc }
      | [«namespace»] => .ok { podOrSvc, «namespace» }
      | [«namespace», service] => .ok { podOrSvc, «namespace», service }
      | [«namespace», service, endpoint] => .ok { podOrSvc, «namespace», service, endpoint }
      | [«namespace», service, s, t] =>
        if !multicluster ∨ s.head? = some '_' ∨ t.head? = some '_' then
          .ok { podOrSvc, «namespace», service, protocol := stripUnderscore s, port := stripUnderscore t }
        else
          .ok { podOrSvc, «namespace», service, cluster := s, endpoint := t }
      | _ => .error .invalidRequest

def parseRequest (dns : Labels) (name zone : Str) (multicluster : Bool) : Except Error RecordRequest :=
  let base := trimZone dns name zone
  if base = [] ∨ base = svc ∨ base = pod then
    .ok {}
  else
    parseSegments multicluster (dns.splitDomainName base).reverse

-- Whether the first place of `sub` in a string is some index.
def indexAt (s sub : Str) (i : Nat) : Bool :=
  s.tails.findIdx? sub.isPrefixOf = some i

def isDefaultNS (name zone : Str) : Bool :=
  indexAt name defaultNSName 0 && indexAt name zone defaultNSName.length

-- The services that were found for several objects, of which some have nothing that matches.
def collect (found : List (Option (List Etcd.Service))) : Except Error (List Etcd.Service) :=
  if found.all (· = none) then .error .noItems else .ok (found.flatMap (·.getD []))

def found (services : List Etcd.Service) : Option (List Etcd.Service) :=
  if services = [] then none else some services

-- The name and the address of a name server. Nothing is known about an address that cannot be parsed.
def nsAddr (name : Str) (ip : Net.IP) : RR where
  name := name
  ttl := 0
  data := if ip.to4 = none then .aaaa ip else .a ip

def parsed (name ip : Str) : RR :=
  nsAddr name ((Net.IP.parse ip).getD [])

namespace Config

section

variable (k : Config) (c : Cluster)

def primaryZone : Str :=
  k.zones.get k.primaryZoneIndex

def configuredNamespace («namespace» : Str) : Bool :=
  k.namespaces = [] || «namespace» ∈ k.namespaces

def namespaceExposed («namespace» : Str) : Bool :=
  k.configuredNamespace «namespace» && c.namespaceExists «namespace»

def endpointAddrs (svcName : Str) (endpoint : Endpoints) : List RR :=
  endpoint.addresses.map fun a => parsed (endpointHostname a k.endpointNameMode ++ '.' :: svcName) a.ip

def serviceAddrs (external headless : Bool) (zone : Str) (endpoint : Endpoints) (s : Service) : List RR :=
  if external then
    let svcName := List.intercalate ['.'] [s.name, s.namespace.text, zone]
    if headless && s.headless then k.endpointAddrs svcName endpoint else s.externalIPs.map (parsed svcName)
  else
    let svcName := List.intercalate ['.'] [s.name, s.namespace.text, svc, zone]
    if s.headless then k.endpointAddrs svcName endpoint else s.clusterIPs.map (parsed svcName)

def localEndpoints : List Endpoints :=
  k.localIPs.flatMap fun ip => c.epIndexReverse ip.string

-- The addresses of the services of the server. If it is not in the cluster, those of the machine.
def nsAddrs (external headless : Bool) (zone : Str) : List RR :=
  if k.localEndpoints c = [] then
    k.localIPs.map (nsAddr (defaultNSName ++ zone))
  else
    (k.localEndpoints c).flatMap fun endpoint =>
      (c.svcIndex endpoint.index).flatMap (k.serviceAddrs external headless zone endpoint)

-- A key that is made of the key of a zone and some more elements.
def keyOf (elements : List Str) : Str :=
  List.intercalate ['/'] elements

def findPods (zonePath : Str) (r : RecordRequest) : Except Error (List Etcd.Service) :=
  if k.podMode = .disabled ∨ !k.namespaceExposed c r.namespace then
    .error .noItems
  else if r.service = [] then
    .ok []
  else
    let ip :=
      if r.service.count '-' = 3 ∧ !contains r.service ['-', '-'] then replaceAll r.service ['-'] ['.']
      else replaceAll r.service ['-'] [':']
    let s : Etcd.Service :=
      { key := keyOf [zonePath, pod, r.namespace, r.service], host := ip, ttl := k.ttl }
    if k.podMode = .insecure then
      if Net.IP.parse ip = none then .error .noItems else .ok [s]
    else
      collect (((c.podIndex ip).filter fun p => ip = p.podIP ∧ Kubernetes.match r.namespace p.namespace.text).map
        fun _ => some [s])

def isEmpty (endpoints : List Endpoints) : Bool :=
  endpoints.all (·.addresses = [])

-- The services for the addresses of endpoints that match a request.
def endpointServices (base : List Str) (r : RecordRequest) (accept : EndpointAddress → Bool) (ep : Endpoints) :
    List Etcd.Service :=
  ep.subsets.flatMap fun eps =>
    (eps.addresses.filter fun addr => r.endpoint = [] ∨ accept addr).flatMap fun addr =>
      (eps.ports.filter fun p => matchPortAndProtocol r.port p.name r.protocol p.protocol).map fun p =>
        { host := addr.ip, port := p.port, ttl := k.ttl,
          key := keyOf (base ++ [endpointHostname addr k.endpointNameMode]) }

-- The services for the cluster IPs of a service, for every port that matches a request.
def clusterIPServices (base : List Str) (r : RecordRequest) (ports : List Port) (clusterIPs : List Str) :
    Option (List Etcd.Service) :=
  let ports := ports.filter fun p => matchPortAndProtocol r.port p.name r.protocol p.protocol
  if ports = [] then
    none
  else
    some (ports.flatMap fun p => clusterIPs.map fun ip =>
      { host := ip, port := p.port, ttl := k.ttl, key := keyOf base })

def findService (zonePath : Str) (r : RecordRequest) (endpoints : List Endpoints) (s : Service) :
    Option (List Etcd.Service) :=
  let base := [zonePath, svc, s.namespace.text, s.name]
  if k.ignoreEmptyService ∧ s.type ≠ .externalName ∧ !s.headless ∧ isEmpty endpoints then
    none
  else if s.type = .externalName then
    let name : Etcd.Service := { key := keyOf base, host := s.externalName, ttl := k.ttl }
    if r.endpoint ≠ [] ∨ r.port ≠ [] ∨ r.protocol ≠ [] ∨ name.hostType ≠ .cname then none else some [name]
  else if s.headless ∨ r.endpoint ≠ [] then
    found ((endpoints.filter (·.index = key s.name s.namespace.text)).flatMap
      (k.endpointServices base r fun addr => Kubernetes.match r.endpoint (endpointHostname addr k.endpointNameMode)))
  else
    k.clusterIPServices base r s.ports s.clusterIPs

def findServices (zonePath : Str) (r : RecordRequest) : Except Error (List Etcd.Service) :=
  if !k.namespaceExposed c r.namespace then
    .error .noItems
  else if r.service = [] then
    .ok []
  else
    let idx := key r.service r.namespace
    let services := (c.svcIndex idx).filter fun s =>
      Kubernetes.match r.namespace s.namespace.text ∧ Kubernetes.match r.service s.name
    collect (services.map (k.findService zonePath r (c.epIndex idx)))

def findServiceImport (zonePath : Str) (r : RecordRequest) (endpoints : List MultiClusterEndpoints)
    (s : ServiceImport) : Option (List Etcd.Service) :=
  let base := [zonePath, svc, s.namespace.text, s.name]
  if k.ignoreEmptyService ∧ !s.headless ∧ isEmpty (endpoints.map (·.toEndpoints)) then
    none
  else if s.headless ∨ r.endpoint ≠ [] then
    found ((endpoints.filter (·.index = key s.name s.namespace.text)).flatMap fun ep =>
      k.endpointServices (base ++ [ep.clusterId]) r
        (fun addr => Kubernetes.match r.cluster ep.clusterId ∧
          Kubernetes.match r.endpoint (endpointHostname addr k.endpointNameMode)) ep.toEndpoints)
  else
    k.clusterIPServices base r s.ports s.clusterIPs

def findMultiClusterServices (zonePath : Str) (r : RecordRequest) : Except Error (List Etcd.Service) :=
  if !k.namespaceExposed c r.namespace then
    .error .noItems
  else if r.service = [] then
    .ok []
  else
    let idx := key r.service r.namespace
    let services := (c.svcImportIndex idx).filter fun s =>
      Kubernetes.match r.namespace s.namespace.text ∧ Kubernetes.match r.service s.name
    collect (services.map (k.findServiceImport zonePath r (c.mcEpIndex idx)))

-- Without a list of namespaces, neither the services nor the endpoints are checked.
def hides («namespace» : Namespace) : Bool :=
  k.namespaces ≠ [] && !k.namespaceExposed c «namespace».text

def serviceRecordForIP (ip : Str) : List Etcd.Service :=
  match (c.svcIndexReverse ip).filter (!k.hides c ·.namespace) with
  | s :: _ => [{ host := List.intercalate ['.'] [s.name, s.namespace.text, svc, k.primaryZone], ttl := k.ttl }]
  | [] =>
    ((c.epIndexReverse ip).filter (!k.hides c ·.namespace)).flatMap fun ep =>
      (ep.addresses.filter (·.ip = ip)).map fun addr =>
        { host := List.intercalate ['.']
            [endpointHostname addr k.endpointNameMode, ep.index, svc, k.primaryZone], ttl := k.ttl }

def serviceRecordForExternalIP (ip : Str) : List Etcd.Service :=
  ((c.svcExtIndexReverse ip).filter (!k.hides c ·.namespace)).map fun s =>
    { host := List.intercalate ['.'] [s.name, s.namespace.text], ttl := k.ttl }

end

section

variable (lib : Library) (k : Config) (c : Cluster)

def isMultiClusterZone (zone : Str) : Bool :=
  Zones.matches lib.isSubDomain k.multiclusterZones zone ≠ []

def records (state : State) : Except Error (List Etcd.Service) := do
  let multicluster := k.isMultiClusterZone lib state.zone
  let zonePath := Etcd.path lib.toLabels state.zone coredns
  let r ← parseRequest lib.toLabels (state.name lib) state.zone multicluster
  if r.podOrSvc = [] then
    return []
  else if isReverse (state.name lib) then
    throw .noItems
  else if !k.namespaceExposed c r.namespace then
    throw .nsNotExposed
  else if r.podOrSvc = pod then
    k.findPods c zonePath r
  else if multicluster then
    k.findMultiClusterServices c zonePath r
  else
    k.findServices c zonePath r

def addressText (rr : RR) : Str :=
  match rr.data with
  | .other _ rdata _ => rdata
  | _ => []

def services (state : State) : Except Error (List Etcd.Service) :=
  if state.qtype = .txt then
    if lib.splitDomainName (trimZone lib.toLabels (state.name lib) state.zone) = ["dns-version".toList] then
      .ok [{ text := dnsSchemaVersion, ttl := 28800, key := Etcd.path lib.toLabels (state.qname lib) coredns }]
    else
      match k.records lib c state with
      | .ok (_ :: _) => .ok []
      | _ => .error .noItems
  else if state.qtype = .ns then
    .ok ((k.nsAddrs c false false state.zone).map fun ns =>
      { host := addressText ns, key := Etcd.path lib.toLabels ns.name coredns, ttl := k.ttl })
  else if isDefaultNS (state.name lib) state.zone then
    .ok (((k.nsAddrs c false false state.zone).filter (·.rrtype = state.qtype)).map fun ns =>
      { host := addressText ns, key := Etcd.path lib.toLabels (state.qname lib) coredns, ttl := k.ttl })
  else if state.qtype = .srv then
    -- Services outside of the cluster have no SRV records.
    (k.records lib c state).map (·.filter (·.hostType ≠ .cname))
  else
    k.records lib c state

def reverse (state : State) : Except Error (List Etcd.Service) :=
  match extractAddressFromReverse (state.name lib) with
  | [] => (k.records lib c state).map fun _ => []
  | ip =>
    match k.serviceRecordForIP c ip with
    | [] => .error .noItems
    | records => .ok records

def serial (state : State) : UInt32 :=
  UInt32.ofInt (c.modified (if k.isMultiClusterZone lib state.zone then .multiCluster else .internal))

def backend (lookup : State → Str → RRType → Option Msg) : Backend where
  services := k.services lib c
  lookup := lookup
  serial := k.serial lib c
  minTTL := k.ttl

end
end Config
end Kubernetes
