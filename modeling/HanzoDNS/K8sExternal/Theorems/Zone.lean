import HanzoDNS.K8sExternal.Transfer
import HanzoDNS.Kubernetes.Theorems.Controller

open Dns Strings Plugin Kubernetes Channel List

namespace K8sExternal

open External Config Cluster Kind Prod Event

section Answers

variable {lib : Library} {e : External} {lookup : State → (name : Str) → (qtype : RRType) → Option Msg} {k : Config}
  {c₁ c₂ : Cluster} {env₁ env₂ : Env}

theorem External.soa_congr (h : c₁.modified .external = c₂.modified .external) :
    e.soa lib ⟨lookup, k, c₁⟩ = e.soa lib ⟨lookup, k, c₂⟩ := by
  funext zone
  simp [External.soa, Config.externalSerial, h]

theorem External.addresses_congr (h : k.nsAddrs c₁ true e.headless = k.nsAddrs c₂ true e.headless) :
    e.addresses ⟨lookup, k, c₁⟩ = e.addresses ⟨lookup, k, c₂⟩ := by
  funext state name
  simp [External.addresses, Config.externalAddress, h]

theorem External.serveDNS_congr {r : Msg} (hs : e.soa lib env₁ = e.soa lib env₂)
    (ha : e.addresses env₁ = e.addresses env₂) (hl : env₁.lookup = env₂.lookup)
    (hx : Zones.matches lib.isSubDomain e.zones (r.name lib) ≠ [] → e.place lib (r.name lib) = .service → ∀ zone,
      env₁.k.external lib env₁.cluster (stateOf r zone) e.headless =
        env₂.k.external lib env₂.cluster (stateOf r zone) e.headless) :
    e.serveDNS lib env₁ r = e.serveDNS lib env₂ r := by
  have hx' : e.serveApex lib env₁ = e.serveApex lib env₂ := by
    funext state r
    simp [serveApex, hs, ha]
  have hsub : e.serveSubApex lib env₁ = e.serveSubApex lib env₂ := by
    funext state r
    simp [serveSubApex, hs, ha]
  have hw : e.answer lib env₁ = e.answer lib env₂ := by
    funext state r found
    rcases found with ⟨_ | _, rcode⟩
    case nil => simp [answer, hs]
    case cons => simp [answer, respond, hs, hl]
  simp only [serveDNS, hx', hsub, hw]
  split
  case isTrue => rfl
  case isFalse hz =>
    cases hp : e.place lib (r.name lib)
    case apex => rfl
    case subApex => rfl
    case service => simp [hx hz hp]

end Answers

-- Two clusters that are the same for those who ask about addresses outside of them.
structure SameOutside (lib : Library) (k : Config) (headless : Bool) (c₁ c₂ : Cluster) : Prop where
  namespaces : c₁.namespaces = c₂.namespaces
  modified : c₁.modified .external = c₂.modified .external
  nsAddrs : k.nsAddrs c₁ true headless = k.nsAddrs c₂ true headless
  found : k.findExternal c₁ headless = k.findExternal c₂ headless
  reverse : k.serviceRecordForExternalIP c₁ = k.serviceRecordForExternalIP c₂
  services : ∀ zone, k.externalServices lib c₁ zone headless = k.externalServices lib c₂ zone headless
  headlessServices : ∀ zone, k.headlessServices lib c₁ zone headless = k.headlessServices lib c₂ zone headless

namespace SameOutside

variable {lib : Library} {k : Config} {c₁ c₂ : Cluster} {e : External}
  {lookup : State → (name : Str) → (qtype : RRType) → Option Msg} (h : SameOutside lib k e.headless c₁ c₂)

include h

theorem external (state : State) : k.external lib c₁ state e.headless = k.external lib c₂ state e.headless := by
  have he : k.namespaceExposed c₁ = k.namespaceExposed c₂ := by
    funext name
    rw [Config.namespaceExposed, Config.namespaceExposed, Cluster.namespaceExists, Cluster.namespaceExists, h.namespaces]
  simp [Config.external, Config.externalForward, he, h.found, h.reverse]

theorem serveDNS (r : Msg) : e.serveDNS lib ⟨lookup, k, c₁⟩ r = e.serveDNS lib ⟨lookup, k, c₂⟩ r :=
  serveDNS_congr (soa_congr h.modified) (addresses_congr h.nsAddrs) rfl fun _ _ zone => h.external (stateOf r zone)

theorem transfer (order : KeyOrder) (zone : Str) (serial : UInt32) :
    e.transfer lib ⟨lookup, k, c₁⟩ order zone serial = e.transfer lib ⟨lookup, k, c₂⟩ order zone serial := by
  have hb : e.body lib ⟨lookup, k, c₁⟩ order = e.body lib ⟨lookup, k, c₂⟩ order := by
    funext zone
    have hs : e.serviceBatches lib ⟨lookup, k, c₁⟩ = e.serviceBatches lib ⟨lookup, k, c₂⟩ := by
      funext seen svcs
      induction svcs generalizing seen
      case nil => rfl
      case cons svcs hi =>
        simp only [External.serviceBatches, hi]
        rfl
    have hg : e.groupBatches lib ⟨lookup, k, c₁⟩ = e.groupBatches lib ⟨lookup, k, c₂⟩ := rfl
    simp [External.body, addresses_congr h.nsAddrs, h.services, h.headlessServices, hs, hg]
  simp only [External.transfer, Config.externalSerial, h.modified, soa_congr h.modified, hb]
  rfl

end SameOutside

section

variable (k : Config) (headless : Bool) (c : Cluster)

structure HiddenService (s : Kubernetes.Service) : Prop where
  addresses : s.externalIPs = []
  empty : headless → Config.isEmpty (c.epIndex s.index)
  foreign : k.ForeignService c s

structure HiddenEndpoints (ep : Endpoints) : Prop where
  services : headless → ∀ s ∈ c.services, s.externalIPs = [] → ep.index ≠ s.index
  foreign : k.ForeignEndpoints ep

-- In zones for addresses outside of the cluster nothing comes or goes, and a service does not become headless unless
-- something else changes. The name servers stay the same.
def TrackedOutside : Event → Prop
  | .service d => d.Keeps service.key
    (fun old new => old.externalIPs = new.externalIPs → old.ports = new.ports → headless → old.headless = new.headless)
    (HiddenService k headless c) c.services
  | .endpoints d => d.Keeps endpoints.key
    (fun old new => old.plain k.endpointNameMode = new.plain k.endpointNameMode ∨
      HiddenEndpoints k headless c old ∧ HiddenEndpoints k headless c new)
    (HiddenEndpoints k headless c) c.endpoints
  | _ => True

end

structure Outside (headless : Bool) (s s' : Kubernetes.Service) : Prop where
  externalIPs : s.externalIPs = s'.externalIPs
  ports : s.ports = s'.ports
  headless : headless → s.headless = s'.headless

variable {k : Config} {headless : Bool} {c : Cluster} {lib : Library} {zone : Str}

section Services

variable {s s' : Kubernetes.Service} (hk : service.key s = service.key s') (h : Outside headless s s')

theorem Outside.and_headless (h : Outside headless s s') : (headless && s.headless) = (headless && s'.headless) := by
  cases headless
  case false => rfl
  case true => rw [h.headless rfl]

include h in
theorem Outside.isHeadless : Config.isHeadless headless s = Config.isHeadless headless s' := by
  rw [Config.isHeadless, Config.isHeadless, Bool.and_right_comm headless _ s.headless,
    Bool.and_right_comm headless _ s'.headless, h.and_headless, h.externalIPs]

include hk h

theorem Outside.serviceAddrs (ep : Endpoints) :
    k.serviceAddrs true headless zone ep s = k.serviceAddrs true headless zone ep s' := by
  obtain ⟨hns, hname⟩ := Prod.mk.inj hk
  simp [Config.serviceAddrs, h.and_headless, h.externalIPs, hns, hname]

theorem Outside.externalFor (zonePath : Str) (r : RecordRequest) :
    k.externalFor c headless zonePath r s = k.externalFor c headless zonePath r s' := by
  obtain ⟨hns, hname⟩ := mk.inj hk
  cases headless
  case false => simp [externalFor, Bool.false_eq_true, false_and, h.externalIPs, h.ports, hns, hname]
  case true => simp [externalFor, h.headless rfl, h.externalIPs, h.ports, hns, hname]

end Services

section Service

variable {d : Delta Kubernetes.Service}
  (h : d.Keeps service.key (Outside headless) (HiddenService k headless c) c.services)

theorem HiddenService.mem_epIndex {s : Kubernetes.Service} (h : HiddenService k headless c s) (hh : headless)
    {ep : Endpoints}
    (hm : ep ∈ c.epIndex s.index) : ep.addresses = [] :=
  of_decide_eq_true (all_eq_true.mp (h.empty hh) ep hm)

include h

theorem findExternal_service : k.findExternal ((service d).store c) headless = k.findExternal c headless := by
  funext zonePath r
  have hx : k.externalFor ((service d).store c) headless zonePath r = k.externalFor c headless zonePath r := rfl
  rw [findExternal, findExternal, svcIndex, svcIndex, filter_filter, filter_filter, hx]
  refine h.filter_flatMap_apply (fun {s s'} hk _ => ?_) (fun hk hw _ => hw.externalFor hk zonePath r) fun {s} hs hp => ?_
  case refine_1 =>
    obtain ⟨hns, hname⟩ := mk.inj hk
    rw [index_eq_of_key hk, hns, hname]
  case refine_2 =>
    have hi : s.index = key r.service r.namespace := of_decide_eq_true (Bool.and_eq_true_iff.mp hp).2
    rw [externalFor]
    split
    case isTrue hc =>
      refine flatMap_eq_nil_iff.mpr fun ep hm => ?_
      exact endpointServices_nil (hs.mem_epIndex hc.1 (hi ▸ (mem_filter.mp hm).1))
    case isFalse => rw [hs.addresses, flatMap_nil]

theorem serviceRecordForExternalIP_service :
    k.serviceRecordForExternalIP ((service d).store c) = k.serviceRecordForExternalIP c := by
  funext ip
  rw [serviceRecordForExternalIP, serviceRecordForExternalIP, svcExtIndexReverse,
    svcExtIndexReverse, filter_filter, filter_filter, map_eq_flatMap, map_eq_flatMap]
  refine h.filter_flatMap_apply (fun {s s'} hk hw => ?_) (fun {s s'} hk _ _ => ?_) fun {s} hs hp => ?_
  case refine_1 => rw [hw.externalIPs, (mk.inj hk).1]
  case refine_2 => rw [(mk.inj hk).1, (mk.inj hk).2]
  case refine_3 =>
    rw [hs.addresses] at hp
    simp at hp

theorem externalServices_service :
    k.externalServices lib ((service d).store c) zone headless = k.externalServices lib c zone headless := by
  refine h.filter_flatMap_apply (fun _ hw => ?_) (fun hk hw _ => ?_) fun hs _ => ?_
  case refine_1 => rw [hw.isHeadless]
  case refine_2 => rw [hw.externalIPs, hw.ports, (mk.inj hk).1, (mk.inj hk).2]
  case refine_3 => rw [hs.addresses, flatMap_nil]

theorem headlessServices_service :
    k.headlessServices lib ((service d).store c) zone headless = k.headlessServices lib c zone headless := by
  refine h.filter_flatMap_apply (fun _ hw => hw.isHeadless) (fun hk _ _ => ?_) fun {s} hs hp => ?_
  case refine_1 => rw [(mk.inj hk).1, (mk.inj hk).2]
  case refine_2 =>
    have hh : headless := by
      simp only [isHeadless, Bool.and_eq_true] at hp
      exact hp.1.1
    refine flatMap_eq_nil_iff.mpr fun ep hm => flatMap_eq_nil_iff.mpr fun eps hp => ?_
    rw [addresses_of_mem (hs.mem_epIndex hh hm) hp]
    rfl

end Service

section Endpoints

variable {d : Delta Endpoints}
  (h : d.Keeps endpoints.key
    (fun old new => old.plain k.endpointNameMode = new.plain k.endpointNameMode ∨
      HiddenEndpoints k headless c old ∧ HiddenEndpoints k headless c new)
    (HiddenEndpoints k headless c) c.endpoints)

include h

theorem filter_flatMap_hidden {γ : Type} (hh : headless) {s : Kubernetes.Service} (hs : s ∈ c.services)
    (hx : s.externalIPs = []) {p : Endpoints → Bool} {f : Endpoints → List γ} (hi : ∀ ep, p ep → ep.index = s.index)
    (hp : ∀ ep, p (ep.plain k.endpointNameMode) = p ep) (hf : ∀ ep, f (ep.plain k.endpointNameMode) = f ep) :
    (((endpoints d).store c).endpoints.filter p).flatMap f = (c.endpoints.filter p).flatMap f := by
  refine h.filter_flatMap_view hp hf fun {ep} he => Bool.eq_false_iff.mpr fun ht => ?_
  exact he.services hh s hs hx (hi ep ht)

theorem findExternal_endpoints : k.findExternal ((endpoints d).store c) headless = k.findExternal c headless := by
  funext zonePath r
  rw [findExternal, findExternal]
  refine flatMap_congr fun s hs => ?_
  have hs : s ∈ c.services := (mem_filter.mp (mem_filter.mp hs).1).1
  rw [externalFor, externalFor]
  split
  case isFalse => rfl
  case isTrue hc =>
    rw [epIndex, epIndex, filter_filter, filter_filter]
    refine filter_flatMap_hidden h hc.1 hs hc.2.1 (fun ep he => ?_) (fun _ => rfl) fun ep => ?_
    case refine_1 => exact of_decide_eq_true (Bool.and_eq_true_iff.mp he).1
    case refine_2 => exact endpointServices_plain k ep _ r _

omit h in
theorem headlessPort_plain (base : List Str) (a : EndpointAddress) :
    k.headlessPort lib base (a.plain k.endpointNameMode) = k.headlessPort lib base a := by
  funext p
  simp [headlessPort, endpointHostname_plain, ip_plain]

theorem headlessServices_endpoints :
    k.headlessServices lib ((endpoints d).store c) zone headless = k.headlessServices lib c zone headless := by
  refine flatMap_congr fun s hs => ?_
  obtain ⟨hs, hp⟩ := mem_filter.mp hs
  obtain ⟨hh, hx⟩ : headless ∧ s.externalIPs = [] := by
    simp only [isHeadless, Bool.and_eq_true, decide_eq_true_eq] at hp
    exact hp.1
  refine filter_flatMap_hidden h hh hs hx (fun ep he => of_decide_eq_true he) (fun _ => rfl) fun ep => ?_
  simp [Endpoints.plain, EndpointSubset.plain, flatMap_map, headlessPort_plain]

end Endpoints

section Step

variable {e : Event} {unix : Int}

theorem sameOutside_process (hm : .external ∉ e.modes c)
    (nsAddrs : ∀ zone, k.nsAddrs (e.store c) true headless zone = k.nsAddrs c true headless zone)
    (found : k.findExternal (e.store c) headless = k.findExternal c headless)
    (reverse : k.serviceRecordForExternalIP (e.store c) = k.serviceRecordForExternalIP c)
    (services : ∀ zone, k.externalServices lib (e.store c) zone headless = k.externalServices lib c zone headless)
    (headlessServices : ∀ zone, k.headlessServices lib (e.store c) zone headless = k.headlessServices lib c zone headless) :
    SameOutside lib k headless (e.process c unix) c where
  namespaces := by cases e <;> rfl
  modified := if_neg hm
  nsAddrs := funext nsAddrs
  found := found
  reverse := reverse
  services := services
  headlessServices := headlessServices

theorem sameOutside (hu : Config.Unique c) (hv : e.Versioned c) (ht : TrackedOutside k headless c e)
    (hm : .external ∉ e.modes c) : SameOutside lib k headless (e.process c unix) c := by
  cases e
  case service d =>
    have hk : d.Keeps service.key (Outside headless)
        (fun s => HiddenService k headless c s ∧ ModifiedMode.external ≠ .internal) c.services := by
      refine keeps hu.services hv ht hm (fun _ => ⟨rfl, rfl, fun _ => rfl⟩) fun {old new} hk hn hs => ?_
      obtain ⟨hi, hp⟩ := Config.serviceModified_snd.mp (by simpa [Kind.service] using hn)
      exact ⟨hi, hp, hs hi hp⟩
    have hk := hk.mono (fun _ h => h) And.left
    refine sameOutside_process hm (fun zone => ?_) (findExternal_service hk) (serviceRecordForExternalIP_service hk)
      (fun _ => externalServices_service hk) fun _ => headlessServices_service hk
    exact nsAddrs_service hk (fun hk h ep _ _ => h.serviceAddrs hk ep) fun h => h.foreign
  case endpoints d =>
    refine sameOutside_process hm (fun zone => ?_) (findExternal_endpoints ht) rfl (fun _ => rfl)
      fun _ => headlessServices_endpoints ht
    exact nsAddrs_endpoints ht fun h => h.foreign
  case serviceImport => exact sameOutside_process hm (fun _ => rfl) rfl rfl (fun _ => rfl) fun _ => rfl
  case mcEndpoints => exact sameOutside_process hm (fun _ => rfl) rfl rfl (fun _ => rfl) fun _ => rfl

end Step

end K8sExternal
