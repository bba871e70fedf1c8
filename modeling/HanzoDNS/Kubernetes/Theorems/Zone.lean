import HanzoDNS.Kubernetes.Handler
import HanzoDNS.Kubernetes.Theorems.Transfer
import HanzoDNS.Plugin.Theorems.Backend

open Dns Strings Plugin Channel List

namespace Kubernetes

open Config Kubernetes Plugin

def sent (ops : List (Op (List RR))) : List RR :=
  ops.flatMap fun op =>
    match op with
    | .send rrs => rrs
    | .close => []

theorem sent_append (ops ops' : List (Op (List RR))) : sent (ops ++ ops') = sent ops ++ sent ops' :=
  flatMap_append

theorem sent_map_send (batches : List (List RR)) : sent (batches.map .send) = batches.flatten := by
  rw [sent, flatMap_map, flatten_eq_flatMap]
  rfl

namespace Config

section

variable (lib : Library) (k : Config)

def question (r : Msg) : State :=
  stateOf lib r (Zones.matches lib.isSubDomain k.zones (r.qname lib).text)

def asked (r : Msg) : Str :=
  extractAddressFromReverse ((k.question lib r).name lib)

def mode (zone : Str) : ModifiedMode :=
  if k.isMultiClusterZone lib zone then .multiCluster else .internal

-- Two clusters that are the same for those who ask about a zone.
structure SameAt (zone : Str) (c₁ c₂ : Cluster) : Prop where
  namespaces : c₁.namespaces = c₂.namespaces
  pods : c₁.pods = c₂.pods
  hasSynced : c₁.hasSynced = c₂.hasSynced
  modified : c₁.modified (k.mode lib zone) = c₂.modified (k.mode lib zone)
  nsAddrs : k.nsAddrs c₁ false false = k.nsAddrs c₂ false false
  inside : ¬k.isMultiClusterZone lib zone → k.findServices c₁ = k.findServices c₂
  across : k.isMultiClusterZone lib zone → k.findMultiClusterServices c₁ = k.findMultiClusterServices c₂
  reverse : ∀ r, (k.question lib r).zone = zone → k.asked lib r ≠ [] →
    k.serviceRecordForIP c₁ (k.asked lib r) = k.serviceRecordForIP c₂ (k.asked lib r)
  content : k.exposedRecords lib c₁ zone = k.exposedRecords lib c₂ zone

end

variable {lib : Library} {k : Config} {zone : Str} {c c₁ c₂ : Cluster} {state : State}

theorem exists_nsAddr {external headless : Bool} {rr : RR} (h : rr ∈ k.nsAddrs c external headless zone) :
    ∃ name ip, rr = nsAddr name ip := by
  have addrs {svcName : Str} {ep : Endpoints} (h : rr ∈ k.endpointAddrs svcName ep) : ∃ name ip, rr = nsAddr name ip := by
    obtain ⟨a, -, rfl⟩ := mem_map.mp h
    exact ⟨_, _, rfl⟩
  have ips {svcName : Str} {ips : List Str} (h : rr ∈ ips.map (parsed svcName)) : ∃ name ip, rr = nsAddr name ip := by
    obtain ⟨ip, -, rfl⟩ := mem_map.mp h
    exact ⟨_, _, rfl⟩
  rw [nsAddrs] at h
  split at h
  case isTrue =>
    obtain ⟨ip, -, rfl⟩ := mem_map.mp h
    exact ⟨_, _, rfl⟩
  case isFalse =>
    obtain ⟨ep, -, h⟩ := mem_flatMap.mp h
    obtain ⟨s, -, h⟩ := mem_flatMap.mp h
    rw [serviceAddrs] at h
    split_ifs at h
    · exact addrs h
    · exact ips h
    · exact addrs h
    · exact ips h

theorem rrtype_nsAddr (name : Str) (ip : Net.IP) : (nsAddr name ip).rrtype = .a ∨ (nsAddr name ip).rrtype = .aaaa := by
  rw [nsAddr, RR.rrtype]
  split
  case isTrue => exact .inr rfl
  case isFalse => exact .inl rfl

theorem srv_not_cname {services : List Etcd.Service} (hq : state.qtype = .srv)
    (h : k.services lib c state = .ok services) : ∀ serv ∈ services, serv.hostType ≠ .cname := by
  have ht : state.qtype ≠ .txt := hq ▸ by decide
  have hn : state.qtype ≠ .ns := hq ▸ by decide
  rw [Config.services, if_neg ht, if_neg hn, hq] at h
  split at h
  case isTrue =>
    -- Addresses are not SRV records.
    have hf : (k.nsAddrs c false false state.zone).filter (·.rrtype = .srv) = [] := by
      refine filter_eq_nil_iff.mpr fun rr hm => ?_
      obtain ⟨name, ip, rfl⟩ := exists_nsAddr hm
      obtain ht | ht := rrtype_nsAddr name ip
      all_goals
        rw [ht]
        decide
    rw [hf] at h
    cases h
    exact forall_mem_nil _
  case isFalse =>
    rw [if_pos rfl] at h
    cases hr : k.records lib c state
    case error err =>
      rw [hr] at h
      cases h
    case ok found =>
      rw [hr] at h
      cases h
      intro serv hm
      simpa using (mem_filter.mp hm).2

namespace SameAt

variable (h : k.SameAt lib zone c₁ c₂)

include h

theorem namespaceExposed : k.namespaceExposed c₁ = k.namespaceExposed c₂ := by
  funext name
  rw [Config.namespaceExposed, Config.namespaceExposed, Cluster.namespaceExists, Cluster.namespaceExists, h.namespaces]

theorem findPods : k.findPods c₁ = k.findPods c₂ := by
  funext zonePath r
  simp [Config.findPods, h.namespaceExposed, Cluster.podIndex, h.pods]

theorem records (hz : state.zone = zone) : k.records lib c₁ state = k.records lib c₂ state := by
  simp only [Config.records, h.namespaceExposed, h.findPods]
  cases hm : k.isMultiClusterZone lib state.zone
  case true => simp [h.across (hz ▸ hm)]
  case false => simp [Bool.false_eq_true, h.inside (hz ▸ ne_true_of_eq_false hm)]

theorem services (hz : state.zone = zone) : k.services lib c₁ state = k.services lib c₂ state := by
  simp only [Config.services, h.records hz, h.nsAddrs]

theorem agreeAt (lookup : State → Str → RRType → Option Msg) :
    AgreeAt zone (k.backend lib c₁ lookup) (k.backend lib c₂ lookup) where
  services state hz := h.services hz
  serial state hz := by
    subst hz
    exact congrArg UInt32.ofInt h.modified
  lookup := rfl
  minTTL := rfl

theorem reverse_eq {r : Msg} (hz : (k.question lib r).zone = zone) :
    k.reverse lib c₁ (k.question lib r) = k.reverse lib c₂ (k.question lib r) := by
  rw [Config.reverse, Config.reverse, h.records hz]
  split
  case h_1 => rfl
  case h_2 ha => rw [←asked, h.reverse r hz ha]

theorem lookup {r : Msg} (hz : (k.question lib r).zone = zone) (lookup : State → Str → RRType → Option Msg) :
    Kubernetes.lookup lib (k.backend lib c₁ lookup) zone (k.question lib r) (k.reverse lib c₁) =
      Kubernetes.lookup lib (k.backend lib c₂ lookup) zone (k.question lib r) (k.reverse lib c₂) := by
  have ha := h.agreeAt lookup
  have hf (f : Family) := @AgreeAt.familyLookup lib _ _ _ _ ha hz f (maxCnameChainLength + 1) []
  have hk : fakeLookup lib (k.backend lib c₁ lookup) zone (k.question lib r) =
      fakeLookup lib (k.backend lib c₂ lookup) zone (k.question lib r) := by
    have hx := @AgreeAt.familyLookup lib _ _ _
      { State.newWithQuestion lib ((k.question lib r).qname lib) .a with zone := (k.question lib r).zone } ha hz .a
      (maxCnameChainLength + 1) []
    simp [fakeLookup, Plugin.a, hx]
  rw [Kubernetes.lookup, Kubernetes.lookup, Plugin.a, Plugin.a, Plugin.aaaa, Plugin.aaaa, Plugin.txt, Plugin.txt,
    Plugin.cname, Plugin.cname, Plugin.mx, Plugin.mx, hf, hf, hf, ha.services _ hz, ha.ns hz, ha.soa hz,
    hk, Plugin.ptr, Plugin.ptr, h.reverse_eq hz]
  by_cases hq : (k.question lib r).qtype = .srv
  case pos => rw [ha.srv hz fun _ => srv_not_cname hq]
  case neg => simp [if_neg hq]

theorem serveDNS {r : Msg} (hz : (k.question lib r).zone = zone) (lookup : State → Str → RRType → Option Msg) :
    k.serveDNS lib c₁ lookup r = k.serveDNS lib c₂ lookup r := by
  have hr (found : Except Error Found) :
      k.respond lib c₁ (k.backend lib c₁ lookup) zone (k.question lib r) r found =
        k.respond lib c₂ (k.backend lib c₂ lookup) zone (k.question lib r) r found := by
    cases found
    case error => simp [respond, backendError, (h.agreeAt lookup).soa hz, h.hasSynced]
    case ok => simp [respond, backendError, (h.agreeAt lookup).soa hz]
  have hl := h.lookup hz lookup
  subst hz
  rw [question] at hr hl
  simp [serveDNS, hl, hr]

theorem mem_zoneServices (order : Order) (rr : RR) :
    rr ∈ (k.zoneServices lib order c₁ zone).flatten ↔ rr ∈ (k.zoneServices lib order c₂ zone).flatten := by
  rw [zoneServices_perm.mem_iff, zoneServices_perm.mem_iff, h.content]

theorem mem_sent_sendAll {order : Order} {rr soa₁ soa₂ : RR} {nsAddrs addrs : List RR} {hosts : List Str} (h₁ : rr ≠ soa₁)
    (h₂ : rr ≠ soa₂) : rr ∈ sent (k.sendAll lib order c₁ zone soa₁ nsAddrs hosts addrs) ↔
      rr ∈ sent (k.sendAll lib order c₂ zone soa₂ nsAddrs hosts addrs) := by
  induction addrs generalizing hosts
  case nil => exact .rfl
  case cons a addrs hi =>
    rw [sendAll, sendAll, sent_append, sent_append, sent_map_send, sent_map_send, mem_append, mem_append]
    refine or_congr ?_ hi
    simp [flatten_append, mem_append, h.mem_zoneServices order rr, h₁, h₂]

theorem sent_transfer {order : Order} {rr : RR} (hr : rr.rrtype ≠ .soa) :
    (∃ ops, k.transfer lib order c₁ zone 0 = .ok ops ∧ rr ∈ sent ops) ↔
      ∃ ops, k.transfer lib order c₂ zone 0 = .ok ops ∧ rr ∈ sent ops := by
  have hs (c : Cluster) : rr ≠ k.soaFor lib c zone { question := [], qtype := 0 } := by
    rintro rfl
    exact hr rfl
  have hg : rr ∈ sent (k.goroutine lib order c₁ zone 0) ↔ rr ∈ sent (k.goroutine lib order c₂ zone 0) := by
    have hc (c : Cluster) : k.goroutine lib order c zone 0 =
        .send [k.soaFor lib c zone { question := [], qtype := 0 }] ::
          k.sendAll lib order c zone (k.soaFor lib c zone { question := [], qtype := 0 }) (k.nsAddrs c false false zone) []
            (k.nsAddrs c false false zone) := by
      rw [goroutine, if_neg fun h => h.1 rfl]
    rw [hc, hc, sent, sent, flatMap_cons, flatMap_cons, mem_append, mem_append, mem_singleton,
      mem_singleton, h.nsAddrs]
    exact or_congr (iff_of_false (hs c₁) (hs c₂)) (h.mem_sent_sendAll (hs c₁) (hs c₂))
  simp only [transfer]
  split
  case isTrue => simp
  case isFalse => simpa using hg

end SameAt
end Config
end Kubernetes
