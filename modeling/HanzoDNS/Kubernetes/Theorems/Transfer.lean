import HanzoDNS.Kubernetes.Transfer

open Dns Strings Plugin Channel List

namespace Kubernetes.Config

variable (lib : Library) (k : Config) (c : Cluster) (zone : Str)

def zoneSOA : RR :=
  k.soaFor lib c zone { question := zone, qtype := .soa, zone := zone }

def zoneSerial : UInt32 :=
  k.serial lib c { question := zone, qtype := .soa, zone := zone }

def sentSerial : UInt32 :=
  k.serial lib c { question := [], qtype := 0 }

def exposedRecords : List RR :=
  let zonePath := Etcd.path lib.toLabels zone coredns
  if k.isMultiClusterZone lib zone then
    (c.serviceImports.filter (k.namespaceExposed c ·.namespace.text)).flatMap fun s =>
      (k.serviceImportRecords lib.toLabels c zonePath s).flatten
  else
    (c.services.filter (k.namespaceExposed c ·.namespace.text)).flatMap fun s =>
      (k.serviceRecords lib.toLabels c zonePath s).flatten

-- The records of a zone, except for its SOA: those of the name servers, their addresses, and those of services.
def IsContent (records : List RR) : Prop :=
  ∃ (hosts : List Str) (services : List RR),
    records = hosts.map (k.nsRecord zone) ++ k.nsAddrs c false false zone ++ services ∧
    hosts.Nodup ∧ (∀ host, host ∈ hosts ↔ host ∈ (k.nsAddrs c false false zone).map (·.name)) ∧
    services.Perm (k.exposedRecords lib c zone)

-- The whole zone is sent between two copies of its SOA, and then the channel is closed.
def Full (ops : List (Op (List RR))) : Prop :=
  ∃ batches content, run ops = (batches, .closed) ∧ k.IsContent lib c zone content ∧
    batches.flatten = k.zoneSOA lib c zone :: content ++ [k.zoneSOA lib c zone]

-- What should be sent for services, in terms of their addresses, ports and endpoints.
section Published

def addressData (ip : Str) : Option RData :=
  (Net.IP.parse ip).map fun ip => ip.to4.elim (.aaaa (ip.to16.getD [])) .a

def published (name : Str) (data : RData) : RR where
  name := name
  ttl := k.ttl
  data := data

def publishedAddress (name ip : Str) : List RR :=
  (addressData ip).toList.map (k.published name)

-- A service with addresses has them under its name, and there each port has an SRV record. A port with a name has
-- another one.
def publishedPorts (name : List Str → Str) (clusterIPs : List Str) (ports : List Port) : List RR :=
  clusterIPs.flatMap (k.publishedAddress (name [])) ++ ports.flatMap fun p =>
    let srv : RData := .srv 0 100 (UInt16.ofInt p.port) (lib.fqdn (name []))
    k.published (name []) srv :: if p.name = [] then [] else [k.published (name (portElements p)) srv]

-- An endpoint has its address under the name of the service and under its own name, and its named ports have SRV
-- records that share the weight with the other addresses.
def publishedSubset (name : List Str → Str) (eps : EndpointSubset) : List RR :=
  eps.addresses.flatMap fun addr =>
    let host := name [endpointHostname addr k.endpointNameMode]
    k.publishedAddress (name []) addr.ip ++ k.publishedAddress host addr.ip ++
      (eps.ports.filter (·.name ≠ [])).map fun p => k.published (name (portElements p))
        (.srv 0 (Etcd.srvWeight eps.addresses.length) (UInt16.ofInt p.port) (lib.fqdn host))

def publishedEndpoints (name : List Str → Str) (endpoints : List Endpoints) : List RR :=
  endpoints.flatMap fun ep => ep.subsets.flatMap (k.publishedSubset lib name)

def under (base labels : List Str) : Str :=
  Etcd.domain lib.toLabels (keyOf (base ++ labels))

def nameUnder (service : Str) (n : Namespace) : List Str → Str :=
  under lib [Etcd.path lib.toLabels zone coredns, svc, n.text, service]

-- A service has addresses of its own, or those of its endpoints.
def publishedAt (name : List Str → Str) (clusterIPs : List Str) (ports : List Port)
    (endpoints : List Endpoints) : List RR :=
  if clusterIPs.head?.bind Net.IP.parse ≠ none then
    k.publishedPorts lib name clusterIPs ports
  else
    k.publishedEndpoints lib name endpoints

def publishedService (s : Service) : List RR :=
  let name := nameUnder lib zone s.name s.namespace
  if s.type = .externalName then
    if Net.IP.parse s.externalName = none then [k.published (name []) (.cname (lib.fqdn s.externalName))] else []
  else
    k.publishedAt lib name s.clusterIPs s.ports (c.epIndex s.index)

def publishedImport (s : ServiceImport) : List RR :=
  k.publishedAt lib (nameUnder lib zone s.name s.namespace) s.clusterIPs s.ports
    ((c.mcEpIndex s.index).map (·.toEndpoints))

def publishedZone : List RR :=
  if k.isMultiClusterZone lib zone then
    (c.serviceImports.filter (k.namespaceExposed c ·.namespace.text)).flatMap (k.publishedImport lib c zone)
  else
    (c.services.filter (k.namespaceExposed c ·.namespace.text)).flatMap (k.publishedService lib c zone)

end Published

-- All of it is sent, and no record of a service comes twice.
def Complete (ops : List (Op (List RR))) : Prop :=
  ∃ (batches : List (List RR)) (hosts : List Str) (services : List RR), run ops = (batches, .closed) ∧
    batches.flatten = k.zoneSOA lib c zone ::
      (hosts.map (k.nsRecord zone) ++ k.nsAddrs c false false zone ++ services) ++ [k.zoneSOA lib c zone] ∧
    hosts.Nodup ∧ (∀ host, host ∈ hosts ↔ host ∈ (k.nsAddrs c false false zone).map (·.name)) ∧
    services.Perm (k.publishedZone lib c zone) ∧ services.Nodup

def Checked (clusterIPs : List Str) : Prop :=
  clusterIPs.head?.bind Net.IP.parse ≠ none → ∀ ip ∈ clusterIPs, Net.IP.parse ip ≠ none

-- What the API server checks of cluster IPs, if the first one is an address, and of endpoints.
structure Addressed : Prop where
  service : s ∈ c.services → Checked s.clusterIPs
  serviceImport : s ∈ c.serviceImports → Checked s.clusterIPs
  endpoints : ep ∈ c.endpoints ∨ ep ∈ c.mcEndpoints.map (·.toEndpoints) → ∀ addr ∈ ep.addresses, Net.IP.parse addr.ip ≠ none

-- What a goroutine with the SOA of the zone does to send all of it.
def wholeZone (order : Order) : List (Op (List RR)) :=
  .send [k.zoneSOA lib c zone] ::
    k.sendAll lib order c zone (k.zoneSOA lib c zone) (k.nsAddrs c false false zone) [] (k.nsAddrs c false false zone)

section

variable {lib k c zone} {order : Order} {soa : RR} {nsAddrs : List RR} {ops : List (Op (List RR))} {serial : UInt32}

theorem soaFor_eq_iff {s t : State} :
    k.soaFor lib c zone s = k.soaFor lib c zone t ↔ k.serial lib c s = k.serial lib c t := by
  constructor
  case mp =>
    intro h
    simpa [soaFor, Plugin.soa, backend] using h
  case mpr =>
    intro h
    simp only [soaFor, Plugin.soa, backend, h]

theorem zoneServices_perm : (k.zoneServices lib order c zone).flatten.Perm (k.exposedRecords lib c zone) := by
  have sent {α : Type} {name : α → Str} (sorting : Sorting name) (l : List α) (p : α → Bool) (f : α → List (List RR)) :
      (((sorting.sort l).filter p).flatMap f).flatten.Perm ((l.filter p).flatMap fun a => (f a).flatten) := by
    simp only [flatten_eq_flatMap, flatMap_assoc]
    exact ((sorting.perm l).filter p).flatMap_right _
  rw [zoneServices, exposedRecords]
  split
  case isTrue => exact sent order.serviceImports _ _ _
  case isFalse => exact sent order.services _ _ _

theorem emitAddressRecord_eq (ip key : Str) :
    emitAddressRecord lib.toLabels { host := ip, ttl := k.ttl, key := key } =
      (addressData ip).map (k.published (Etcd.domain lib.toLabels key)) := by
  simp only [emitAddressRecord, Etcd.Service.hostType, addressData]
  cases Net.IP.parse ip
  case none => rfl
  case some ip => cases hi : ip.to4 <;> simp [newAddress, Etcd.Service.newA, Etcd.Service.newAAAA, published, hi]

theorem hostOf_address {ip name : Str} (h : Net.IP.parse ip ≠ none) :
    hostOf ((addressData ip).map (k.published name)) = name := by
  obtain ⟨a, ha⟩ := Option.ne_none_iff_exists'.mp h
  simp [addressData, ha, hostOf, published]

theorem flatten_batch (rr : Option RR) : (batch rr).flatten = rr.toList := by
  cases rr <;> rfl

theorem flatten_flatMap {l : List α} {f : α → List (List β)} :
    (l.flatMap f).flatten = l.flatMap fun a => (f a).flatten := by
  simp only [flatten_eq_flatMap, flatMap_assoc]

section Names

variable {base ips : List Str} {ports : List Port} {eps : List Endpoints}

theorem clusterIPRecords_flatten (hn : ips ≠ []) (h : ∀ ip ∈ ips, Net.IP.parse ip ≠ none) :
    (k.clusterIPRecords lib.toLabels base ips ports).flatten = k.publishedPorts lib (under lib base) ips ports := by
  have hh : ((ips.map fun ip => (addressData ip).map
      (k.published (Etcd.domain lib.toLabels (keyOf base)))).getLast?).elim [] hostOf =
      Etcd.domain lib.toLabels (keyOf base) := by
    rw [getLast?_map, getLast?_eq_getLast_of_ne_nil hn]
    exact hostOf_address (h _ (getLast_mem hn))
  simp only [clusterIPRecords, emitAddressRecord_eq, hh, flatten_append, flatten_flatMap, flatMap_map, flatten_batch,
    publishedPorts, under, append_nil, Option.toList_map]
  congr 1
  refine flatMap_congr fun p _ => ?_
  split
  all_goals rfl

theorem subsetRecords_flatten {eps : EndpointSubset} (h : ∀ addr ∈ eps.addresses, Net.IP.parse addr.ip ≠ none) :
    (k.subsetRecords lib.toLabels base eps).flatten = k.publishedSubset lib (under lib base) eps := by
  rw [subsetRecords, publishedSubset, flatten_flatMap]
  refine flatMap_congr fun addr ha => ?_
  simp only [emitAddressRecord_eq, hostOf_address (h addr ha), flatten_append, flatten_batch, publishedAddress, under,
    append_nil, Option.toList_map]
  congr 1
  exact map_eq_flatMap.symm

theorem publishedAt_eq (hi : Checked ips) (he : ∀ ep ∈ eps, ∀ addr ∈ ep.addresses, Net.IP.parse addr.ip ≠ none) :
    (if ips.head?.bind Net.IP.parse ≠ none then k.clusterIPRecords lib.toLabels base ips ports
      else eps.flatMap (k.endpointRecords lib.toLabels base)).flatten =
    k.publishedAt lib (under lib base) ips ports eps := by
  rw [publishedAt]
  split
  case isTrue hp => exact clusterIPRecords_flatten (by rintro rfl; exact hp rfl) (hi hp)
  case isFalse =>
    rw [flatten_flatMap]
    refine flatMap_congr fun ep hep => ?_
    rw [endpointRecords, flatten_flatMap]
    exact flatMap_congr fun eps hs => subsetRecords_flatten fun addr ha => he ep hep addr (mem_flatMap.mpr ⟨eps, hs, ha⟩)

end Names

variable (hc : Addressed c)

include hc

theorem serviceRecords_flatten {s : Service} (hs : s ∈ c.services) :
    (k.serviceRecords lib.toLabels c (Etcd.path lib.toLabels zone coredns) s).flatten =
      k.publishedService lib c zone s := by
  rw [serviceRecords, publishedService]
  split
  case h_1 ht =>
    rw [if_pos ht]
    cases hp : Net.IP.parse s.externalName
    case none => simp [Etcd.Service.hostType, hp, Etcd.Service.newCNAME, published, nameUnder, under]
    case some ip => cases hi : ip.to4 <;> simp [Etcd.Service.hostType, hp, hi]
  case h_2 ht =>
    rw [if_neg ht]
    exact publishedAt_eq (hc.service hs) fun ep he => hc.endpoints (.inl (mem_filter.mp he).1)

theorem serviceImportRecords_flatten {s : ServiceImport} (hs : s ∈ c.serviceImports) :
    (k.serviceImportRecords lib.toLabels c (Etcd.path lib.toLabels zone coredns) s).flatten =
      k.publishedImport lib c zone s := by
  rw [serviceImportRecords, publishedImport, ←flatMap_map]
  exact publishedAt_eq (hc.serviceImport hs) (forall_mem_map.mpr fun ep he =>
    hc.endpoints (.inr (mem_map_of_mem (mem_filter.mp he).1)))

theorem exposedRecords_eq : k.exposedRecords lib c zone = k.publishedZone lib c zone := by
  rw [exposedRecords, publishedZone]
  split
  case isTrue => exact flatMap_congr fun s hs => serviceImportRecords_flatten hc (mem_filter.mp hs).1
  case isFalse => exact flatMap_congr fun s hs => serviceRecords_flatten hc (mem_filter.mp hs).1

theorem complete_iff_full : k.Complete lib c zone ops ↔ k.Full lib c zone ops ∧ (k.publishedZone lib c zone).Nodup := by
  have he : k.exposedRecords lib c zone = k.publishedZone lib c zone := exposedRecords_eq hc
  constructor
  case mp =>
    rintro ⟨batches, hosts, services, hr, hf, hn, hh, hp, hd⟩
    exact ⟨⟨batches, _, hr, ⟨hosts, services, rfl, hn, hh, he ▸ hp⟩, hf⟩, hp.nodup_iff.mp hd⟩
  case mpr =>
    rintro ⟨⟨batches, _, hr, ⟨hosts, services, rfl, hn, hh, hp⟩, hf⟩, hd⟩
    exact ⟨batches, hosts, services, hr, hf, hn, hh, he ▸ hp, (he ▸ hp).nodup_iff.mpr hd⟩

omit hc

theorem length_of_closed {hosts : List Str} {addrs : List RR}
    (h : (run (k.sendAll lib order c zone soa nsAddrs hosts addrs)).2 = .closed) : addrs.length = 1 := by
  rcases addrs with _ | ⟨a, _ | ⟨b, rest⟩⟩
  case nil => cases h
  case cons.nil => rfl
  case cons.cons =>
    rw [sendAll, run_sends_append, run_close_append] at h
    · cases h
    · simp [sendAll]

variable (order) in
theorem isContent_single {nsAddr : RR} (hn : k.nsAddrs c false false zone = [nsAddr]) :
    k.IsContent lib c zone ([k.nsRecord zone nsAddr.name] ++ [nsAddr] ++ (k.zoneServices lib order c zone).flatten) := by
  refine ⟨[nsAddr.name], (k.zoneServices lib order c zone).flatten, ?_, nodup_singleton _, ?_, zoneServices_perm⟩
  · rw [hn]
    rfl
  · simp [hn]

theorem length_of_wholeZone_closed (h : (run (k.wholeZone lib c zone order)).2 = .closed) :
    (k.nsAddrs c false false zone).length = 1 :=
  length_of_closed h

theorem full_wholeZone_iff :
    k.Full lib c zone (k.wholeZone lib c zone order) ↔ (k.nsAddrs c false false zone).length = 1 := by
  constructor
  case mp =>
    rintro ⟨batches, content, hr, -⟩
    exact length_of_wholeZone_closed (congrArg Prod.snd hr)
  case mpr =>
    intro h
    obtain ⟨nsAddr, hn⟩ := length_eq_one_iff.mp h
    have ho : k.wholeZone lib c zone order =
        ([[k.zoneSOA lib c zone], [k.nsRecord zone nsAddr.name], [nsAddr]] ++ k.zoneServices lib order c zone ++
          [[k.zoneSOA lib c zone]]).map .send ++ [.close] := by
      simp [wholeZone, hn, sendAll]
    refine ⟨_, _, run_eq_closed_iff.mpr ho, isContent_single order hn, ?_⟩
    simp

theorem goroutine_of_full_serial (hs : k.sentSerial lib c = k.zoneSerial lib c zone)
    (hn : serial = 0 ∨ serial ≠ k.zoneSerial lib c zone) :
    k.goroutine lib order c zone serial = k.wholeZone lib c zone order := by
  have hc : ¬(serial ≠ 0 ∧ k.serial lib c { question := [], qtype := 0 } = serial) := by
    rintro ⟨hz, he⟩
    exact hn.elim hz fun hn => hn (he.symm.trans hs)
  have hsoa : k.soaFor lib c zone { question := [], qtype := 0 } = k.zoneSOA lib c zone := soaFor_eq_iff.mpr hs
  rw [goroutine, if_neg hc, hsoa, wholeZone]

theorem goroutine_of_current_serial (hs : k.sentSerial lib c = k.zoneSerial lib c zone)
    (hz : k.zoneSerial lib c zone ≠ 0) :
    k.goroutine lib order c zone (k.zoneSerial lib c zone) = [.send [k.zoneSOA lib c zone], .close] := by
  have hsoa : k.soaFor lib c zone { question := [], qtype := 0 } = k.zoneSOA lib c zone := soaFor_eq_iff.mpr hs
  rw [goroutine, if_pos ⟨hz, hs⟩, hsoa]

theorem sentSerial_eq_of_head {batches : List (List RR)} {rest : List RR}
    (hr : (run (k.goroutine lib order c zone serial)).1 = batches) (hf : batches.flatten = k.zoneSOA lib c zone :: rest) :
    k.sentSerial lib c = k.zoneSerial lib c zone := by
  obtain ⟨ops, ho⟩ : ∃ ops, k.goroutine lib order c zone serial =
      .send [k.soaFor lib c zone { question := [], qtype := 0 }] :: ops := by
    rw [goroutine]
    split
    case isTrue => exact ⟨_, rfl⟩
    case isFalse => exact ⟨_, rfl⟩
  rw [ho, run] at hr
  subst hr
  exact soaFor_eq_iff.mp (List.cons.inj hf).1

theorem sentSerial_eq_of_full (h : k.Full lib c zone (k.goroutine lib order c zone serial)) :
    k.sentSerial lib c = k.zoneSerial lib c zone := by
  obtain ⟨batches, content, hr, -, hf⟩ := h
  exact sentSerial_eq_of_head (congrArg Prod.fst hr) hf

theorem goroutine_of_transfer (h : k.transfer lib order c zone serial = .ok ops) :
    ops = k.goroutine lib order c zone serial := by
  rw [transfer] at h
  split at h
  case isTrue => cases h
  case isFalse => exact (Except.ok.inj h).symm

theorem goroutine_full_iff (hn : serial = 0 ∨ serial ≠ k.zoneSerial lib c zone) :
    k.Full lib c zone (k.goroutine lib order c zone serial) ↔
      (k.nsAddrs c false false zone).length = 1 ∧ k.sentSerial lib c = k.zoneSerial lib c zone := by
  by_cases hs : k.sentSerial lib c = k.zoneSerial lib c zone
  case pos => rw [goroutine_of_full_serial hs hn, full_wholeZone_iff, and_iff_left hs]
  case neg => exact iff_of_false (hs ∘ sentSerial_eq_of_full) (hs ·.2)

end
end Kubernetes.Config

namespace Kubernetes

open Config

def Sorting.reference {α : Type} (name : α → Str) : Sorting name where
  sort l := l.insertionSort (name · ≤ name ·)
  perm l := perm_insertionSort _ l
  sorted l := by
    have : Std.Total (α := α) (name · ≤ name ·) := ⟨fun a b => le_total (name a) (name b)⟩
    have : IsTrans α (name · ≤ name ·) := ⟨fun a b c => le_trans⟩
    exact (pairwise_insertionSort _ l).imp not_lt_of_ge

def Order.reference : Order where
  services := .reference _
  serviceImports := .reference _

namespace Sample

theorem default_valid : "default".toList.all isLabelChar := by
  decide +kernel

def default : Namespace where
  text := "default"
  valid := default_valid

def web : Service where
  version := ['1']
  name := "web"
  «namespace» := default
  clusterIP := "10.0.0.7"
  otherClusterIPs := []
  type := .clusterIP
  externalName := []
  ports := [{ name := "http", port := 80, protocol := "TCP" }]
  externalIPs := []

def cluster : Cluster where
  services := [web]
  namespaces := [default]
  modified := fun _ => 7

def config (localIPs : List Net.IP) : Config where
  zones := ["cluster.local.".toList]
  primaryZoneIndex := 0
  localIPs := localIPs

end Sample

open Sample

theorem addressed_cluster : Addressed cluster where
  service hs _ := by simp_all [cluster, web, Service.clusterIPs]
  serviceImport hs := by cases hs
  endpoints he := by simp [cluster] at he

end Kubernetes
